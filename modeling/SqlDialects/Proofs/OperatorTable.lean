import SqlDialects.Proofs.Coverage
import SqlDialects.Proofs.Lexemes
import SqlDialects.Proofs.Registrations

/-!
# The table of operators

* `Ranked` : a table of symbols without duplicates, the longer ones first;
* `BuildStep`, `Dialect.built` : a dialect made of the base by changes and by new rules of reading and
  of writing;
* `Dialect.operators_change` : the symbol that a change adds to the table, if any;
* `Dialect.built_ranked` : the table of such a dialect is ranked;
* `Ranked.longest` : where a table is ranked, an operator is the longest symbol of it at its place;
* `built_longest_match` : both, for the tokens of any text.
-/

namespace SqlDialects

open LexicalRules

/-! ## The order of a table -/

theorem operatorBefore_iff {a b : String} : operatorBefore a b = true ↔
    b.utf8ByteSize < a.utf8ByteSize ∨ a.utf8ByteSize = b.utf8ByteSize ∧ a ≤ b := by
  simp [operatorBefore]

theorem utf8ByteSize_le_of_operatorBefore {a b : String} (h : operatorBefore a b = true) :
    b.utf8ByteSize ≤ a.utf8ByteSize := by
  rcases operatorBefore_iff.mp h with hlt | ⟨heq, -⟩
  · exact hlt.le
  · exact heq.ge

instance : Std.Total fun a b => operatorBefore a b = true where
  total a b := by
    rw [operatorBefore_iff, operatorBefore_iff]
    rcases Nat.lt_trichotomy a.utf8ByteSize b.utf8ByteSize with hlt | heq | hgt
    · exact .inr (.inl hlt)
    · exact (le_total a b).imp (fun h => .inr ⟨heq, h⟩) fun h => .inr ⟨heq.symm, h⟩
    · exact .inl (.inl hgt)

instance : IsTrans String fun a b => operatorBefore a b = true where
  trans a b c hab hbc := by
    rw [operatorBefore_iff] at hab hbc ⊢
    rcases hab with hab | ⟨hab, hle⟩
    · refine .inl ?_
      rcases hbc with hbc | ⟨hbc, -⟩ <;> omega
    · rcases hbc with hbc | ⟨hbc, hle'⟩
      · exact .inl (by omega)
      · exact .inr ⟨hab.trans hbc, hle.trans hle'⟩

theorem placeOperator_eq_orderedInsert (symbol : String) (ops : List String) :
    placeOperator symbol ops = ops.orderedInsert (fun a b => operatorBefore a b = true) symbol := by
  induction ops with
  | nil => rfl
  | cons op ops ih => rw [placeOperator, List.orderedInsert_cons, ih]

/-- The symbols have no duplicates, and the longer ones stand first. -/
structure Ranked (ops : List String) : Prop where
  nodup : ops.Nodup
  sorted : ops.Pairwise fun a b => operatorBefore a b = true

namespace Ranked

theorem nil : Ranked [] := ⟨.nil, .nil⟩

theorem addOperator {r : LexicalRules} (h : Ranked r.operators) (symbol : String) :
    Ranked (r.addOperator symbol).operators := by
  unfold LexicalRules.addOperator
  split
  · exact h
  · next hnew =>
    have hnotin : symbol ∉ r.operators := by simpa using hnew
    dsimp only
    rw [placeOperator_eq_orderedInsert]
    refine ⟨?_, h.sorted.orderedInsert symbol _⟩
    exact (List.perm_orderedInsert _ symbol r.operators).nodup_iff.mpr
      (List.nodup_cons.mpr ⟨hnotin, h.nodup⟩)

theorem addOperators {r : LexicalRules} (h : Ranked r.operators) (symbols : List String) :
    Ranked (symbols.foldl LexicalRules.addOperator r).operators := by
  induction symbols generalizing r with
  | nil => exact h
  | cons symbol symbols ih => exact ih (h.addOperator symbol)

end Ranked

/-! ## Dialects as they are built -/

/-- A step by which a dialect is built: a change, or new rules of reading or of writing. -/
inductive BuildStep where
  | change (c : Change)
  | reading (tune : ReadingRules → ReadingRules)
  | writing (tune : WritingRules → WritingRules)

/-- The symbol that a change adds to the table of operators. -/
def Change.symbol? : Change → Option String
  | .operator symbol _ _ => some symbol
  | .doubleColonCast => some "::"
  | _ => none

namespace Dialect

/-- The dialect after a step. -/
def step (d : Dialect) : BuildStep → Dialect
  | .change c => d.change c
  | .reading tune => { d with reading := tune d.reading }
  | .writing tune => { d with writing := tune d.writing }

/-- The dialect that the base becomes by `steps`, in their order. -/
def built (name : String) (steps : List BuildStep) : Dialect := steps.foldl step (base name)

/-- A style of row limits reserves words and changes no operator. -/
theorem operators_limitStyle (d : Dialect) (style : LimitStyle) :
    (d.limitStyle style).lexical.operators = d.lexical.operators :=
  view_limitStyle (·.lexical.operators) d style (fun _ _ _ => rfl) (fun _ _ => rfl) (fun _ _ => rfl)
    (fun _ _ => rfl) fun _ _ => rfl

/-- A change adds one symbol to the table of operators or leaves the table. Removing the meaning of a
symbol leaves it too: the symbol stays a token. -/
theorem operators_change (d : Dialect) (c : Change) : (d.change c).lexical.operators =
    (c.symbol?.map fun symbol => (d.lexical.addOperator symbol).operators).getD
      d.lexical.operators := by
  cases c with
  | support c => cases c <;> rfl
  | reserve words => exact view_reserve (·.lexical.operators) d words fun _ _ => rfl
  | release words => exact view_foldl (·.lexical.operators) _ words d fun _ _ => rfl
  | preferOperator symbol =>
    show (d.preferOperator symbol).lexical.operators = _
    unfold preferOperator
    split <;> rfl
  | limitStyle style => exact operators_limitStyle d style
  | autoIncrementBy style => cases style <;> rfl
  | _ => rfl

theorem base_ranked (name : String) : Ranked (base name).lexical.operators := by
  rw [base, operators_limitStyle]
  exact Ranked.nil.addOperators _

theorem step_ranked {d : Dialect} (h : Ranked d.lexical.operators) (s : BuildStep) :
    Ranked (d.step s).lexical.operators := by
  cases s with
  | change c =>
    rw [step, operators_change]
    cases c.symbol? with
    | some symbol => exact h.addOperator symbol
    | none => exact h
  | reading => exact h
  | writing => exact h

/-- However a dialect is built, its table of operators is ranked. -/
theorem built_ranked (name : String) (steps : List BuildStep) :
    Ranked (built name steps).lexical.operators := by
  have hrun (d : Dialect) (h : Ranked d.lexical.operators) :
      Ranked (steps.foldl step d).lexical.operators := by
    induction steps generalizing d with
    | nil => exact h
    | cons s steps ih => exact ih (d.step s) (step_ranked h s)
  exact hrun (base name) (base_ranked name)

end Dialect

/-! ## The operator at the head of a text -/

namespace Lexer

variable {r : LexicalRules} {c : Char} {cs : List Char} {l : Lexeme}

/-- An operator is found as one. -/
theorem operator_of_lexeme (h : lexeme r c cs = .ok l) (hkind : l.kind = .operator) :
    operator r c cs = some l := by
  have hplain : plain r c cs = l := plain_of_lexeme h (by rw [hkind]; rfl) (by simp [hkind])
  unfold plain at hplain
  dsimp only at hplain
  cases hfound : param r c cs <|> ((number (c :: cs)).map fun n => (⟨.number, n - 1, none⟩ : Lexeme)) <|>
      word r c cs <|> operator r c cs with
  | none =>
    rw [hfound, Option.getD_none] at hplain
    have hother : (if punctuation.contains c then Token.Kind.punctuation else .unknown) ≠ .operator := by
      split <;> simp
    exact absurd ((congrArg Lexeme.kind hplain).trans hkind) hother
  | some l' =>
    obtain rfl : l' = l := by rw [← hplain, hfound, Option.getD_some]
    simp only [Option.orElse_eq_orElse, Option.orElse_eq_or, Option.or_eq_some_iff] at hfound
    rcases hfound with hl | ⟨-, hl | ⟨-, hl | ⟨-, hl⟩⟩⟩
    · unfold param at hl
      split at hl
      · obtain ⟨n, -, rfl⟩ := Option.map_eq_some_iff.mp hl
        cases hkind
      · cases hl
    · obtain ⟨n, -, rfl⟩ := Option.map_eq_some_iff.mp hl
      cases hkind
    · unfold word at hl
      split at hl
      · obtain rfl := Option.some.inj hl
        dsimp only at hkind
        split at hkind <;> cases hkind
      · cases hl
    · exact hl

/-- An operator is a symbol of the table. -/
theorem symbol_of_operator (h : operator r c cs = some l) :
    ∃ op, r.operators.find? (fun op => op != "" && op.toList.isPrefixOf (c :: cs)) = some op ∧
      l.contents.getD (.ofList (c :: cs.take l.extra)) = op := by
  obtain ⟨op, hfind, rfl⟩ := Option.map_eq_some_iff.mp h
  refine ⟨op, hfind, ?_⟩
  obtain ⟨hne, hprefix⟩ : op ≠ "" ∧ op.toList <+: c :: cs := by
    simpa using List.find?_some hfind
  obtain ⟨rest, hrest⟩ := hprefix
  have hpos : 0 < op.toList.length := List.length_pos_iff.mpr (by simpa using hne)
  have htake : c :: cs.take (op.toList.length - 1) = op.toList := by
    rw [← List.take_succ_cons, Nat.sub_add_cancel hpos, ← hrest, List.take_left]
  rw [Option.getD_none, htake, String.ofList_toList]

end Lexer

/-- Where the table is ranked, the first symbol that a text starts with is the longest of them. -/
theorem Ranked.longest {ops : List String} (h : Ranked ops) {cs : List Char} {op : String}
    (hfind : ops.find? (fun op => op != "" && op.toList.isPrefixOf cs) = some op) :
    op ∈ ops ∧ op.toList <+: cs ∧
      ∀ other ∈ ops, other.toList <+: cs → other.utf8ByteSize ≤ op.utf8ByteSize := by
  obtain ⟨hop, before, after, rfl, hbefore⟩ := List.find?_eq_some_iff_append.mp hfind
  refine ⟨by simp, ?_, fun other hother hprefix => ?_⟩
  · exact List.isPrefixOf_iff_prefix.mp (Bool.and_eq_true_iff.mp hop).2
  · rcases List.mem_append.mp hother with hmem | hmem
    · -- What stands before the first match matches only if it is empty.
      have hnot := hbefore other hmem
      obtain rfl : other = "" := by simpa [List.isPrefixOf_iff_prefix.mpr hprefix] using hnot
      simp
    · rcases List.mem_cons.mp hmem with rfl | hmem
      · exact le_rfl
      · have hsorted := (List.pairwise_append.mp h.sorted).2.1
        exact utf8ByteSize_le_of_operatorBefore ((List.pairwise_cons.mp hsorted).1 other hmem)

/-! ## Tokens -/

/-- Every token of a scan is the lexeme at the head of what stands behind its place. -/
theorem lexeme_of_mem_scanFrom (r : LexicalRules) (keep : Bool) (p : Position) (spaced : Bool)
    (cs : List Char) : ∀ t ∈ (scanFrom r keep p spaced cs).tokens, ∃ read c rest l,
      cs = read ++ c :: rest ∧ t.position = p.after read ∧ Lexer.lexeme r c rest = .ok l ∧
        t.kind = l.kind ∧ t.text = l.contents.getD (.ofList (c :: rest.take l.extra)) := by
  induction p, spaced, cs using scanFrom.induct r keep with
  | case1 p spaced => simp [scanFrom]
  | case2 p spaced c cs f hlexeme => simp [scanFrom, hlexeme]
  | case3 p spaced c cs l hlexeme source hdropped ih =>
    intro t ht
    rw [scanFrom, hlexeme] at ht
    simp only [hdropped, if_true] at ht
    obtain ⟨read, c', rest, l', hcs, hplace, hfound⟩ := ih t ht
    refine ⟨source ++ read, c', rest, l', ?_, ?_, hfound⟩
    · rw [List.append_assoc, ← hcs, List.cons_append, List.take_append_drop]
    · rw [Position.after_append, hplace]
  | case4 p spaced c cs l hlexeme source hkept ih =>
    intro t ht
    rw [scanFrom, hlexeme] at ht
    have hcut : (l.kind.isTrivia && !keep) = false := Bool.eq_false_iff.mpr hkept
    simp only [hcut] at ht
    rcases List.mem_cons.mp ht with rfl | ht
    · exact ⟨[], c, cs, l, rfl, rfl, hlexeme, rfl, rfl⟩
    · obtain ⟨read, c', rest, l', hcs, hplace, hfound⟩ := ih t ht
      refine ⟨source ++ read, c', rest, l', ?_, ?_, hfound⟩
      · rw [List.append_assoc, ← hcs, List.cons_append, List.take_append_drop]
      · rw [Position.after_append, hplace]

/-- Where the table is ranked, an operator among the tokens of a text is a symbol of the table, and no
longer one stands at its place. -/
theorem Ranked.longest_of_mem_scan {r : LexicalRules} (h : Ranked r.operators) {trivia : Bool}
    {sql : String} {t : Token} (ht : t ∈ (scan r trivia sql).tokens) (hkind : t.kind = .operator) :
    ∃ before after : String, sql = before ++ after ∧ t.position.offset = before.utf8ByteSize ∧
      t.text ∈ r.operators ∧ t.text.toList <+: after.toList ∧
        ∀ op ∈ r.operators, op.toList <+: after.toList → op.utf8ByteSize ≤ t.text.utf8ByteSize := by
  obtain ⟨read, c, rest, l, hsql, hplace, hlexeme, hk, htext⟩ :=
    lexeme_of_mem_scanFrom r trivia .start false sql.toList t ht
  have hoperator := Lexer.operator_of_lexeme hlexeme (hk.symm.trans hkind)
  obtain ⟨op, hfind, hspelled⟩ := Lexer.symbol_of_operator hoperator
  obtain rfl : t.text = op := htext.trans hspelled
  refine ⟨.ofList read, .ofList (c :: rest), ?_, ?_, ?_⟩
  · rw [← String.ofList_append, ← hsql, String.ofList_toList]
  · rw [hplace, show (Position.start : Position) = .behind [] from rfl, ← Position.behind_append]
    rfl
  · rw [String.toList_ofList]
    exact h.longest hfind

/-- However a dialect is built, its table of operators has no duplicates and lists the longer symbols
first. So an operator among the tokens of a text is a symbol of the table that stands at its place, and
no symbol that stands there is longer. -/
theorem built_longest_match (name : String) (steps : List BuildStep) :
    let r := (Dialect.built name steps).lexical
    r.operators.Nodup ∧ r.operators.Pairwise (fun a b => b.utf8ByteSize ≤ a.utf8ByteSize) ∧
      ∀ trivia sql, ∀ t ∈ (scan r trivia sql).tokens, t.kind = .operator →
        ∃ before after : String, sql = before ++ after ∧
          t.position.offset = before.utf8ByteSize ∧ t.text ∈ r.operators ∧
          t.text.toList <+: after.toList ∧ ∀ op ∈ r.operators, op.toList <+: after.toList →
            op.utf8ByteSize ≤ t.text.utf8ByteSize := by
  intro r
  have hranked : Ranked r.operators := Dialect.built_ranked name steps
  refine ⟨hranked.nodup, hranked.sorted.imp utf8ByteSize_le_of_operatorBefore, ?_⟩
  intro trivia sql t ht hkind
  exact hranked.longest_of_mem_scan ht hkind

/-- The shorter of two arrows does not cut the longer one, though it came first and lost its meaning. -/
example : ((scan (Dialect.built "arrows" [.change (.operator "->" .concat .concat),
    .change (.operator "->>" .concat .concat), .change (.removeOperator "->")]).lexical false
      "a->>b->c").tokens.map Token.text) = ["a", "->>", "b", "->", "c"] := by
  decide +kernel

end SqlDialects
