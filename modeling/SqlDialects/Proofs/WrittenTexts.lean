import SqlDialects.Proofs.Twins

/-!
# The texts of a statement

* `Dialect.isWord`, `Dialect.isNumber` : whether a text is read as one word or one number;
* `Statement.IsLexical` : whether the names of functions, the types, the numbers and the parameters of
  a statement are texts of a dialect;
* `Relaid.number`, `Relaid.dataType`, `Relaid.callText`, `Relaid.unaryText`, `Relaid.marked`, ... :
  what two layouts write for them are twins.
-/

namespace SqlDialects

open Render Text

/-! ## Texts of a dialect -/

/-- Whether `w` is read as one token, of one of the kinds `ks`. -/
def Dialect.readsAs (d : Dialect) (ks : List Token.Kind) (w : String) : Bool :=
  match w.toList with
  | [] => false
  | c :: cs =>
    match Lexer.lexeme d.lexical c cs with
    | .ok l => ks.contains l.kind && l.extra == cs.length
    | .error _ => false

/-- Whether `w` is read as one word, reserved or not. -/
def Dialect.isWord (d : Dialect) (w : String) : Bool := d.readsAs [.word, .keyword] w

/-- Whether `w` is read as one number. -/
def Dialect.isNumber (d : Dialect) (w : String) : Bool := d.readsAs [.number] w

/-- The text `name` is made of words with dots between them. -/
def Dialect.IsFunctionName (d : Dialect) (name : String) : Prop :=
  ∃ ws : List String, ws ≠ [] ∧ (∀ w ∈ ws, d.isWord w = true) ∧ name = String.intercalate "." ws

/-- The text `spelling` is made of words with blanks between them and, it may be, a list of words and
numbers in parentheses. -/
def Dialect.IsTypeText (d : Dialect) (spelling : String) : Prop :=
  ∃ ws args : List String, ws ≠ [] ∧ (∀ w ∈ ws, d.isWord w = true) ∧
    (∀ w ∈ args, d.isWord w = true ∨ d.isNumber w = true) ∧
      (spelling = String.intercalate " " ws ∨
        ∃ left ∈ ["(", " ("], ∃ gap ∈ [", ", ","],
          spelling = String.intercalate " " ws ++ left ++ String.intercalate gap args ++ ")")

/-- A type that the dialect knows, or one whose spelling is a text of the dialect. -/
def DataType.IsLexical (d : Dialect) : DataType → Prop
  | .custom spelling => d.IsTypeText spelling
  | _ => True

/-- The texts of a node are texts of the dialect. -/
def Node.IsLexical (d : Dialect) : Node → Prop
  | .expr (.literal (.number digits)) => d.isNumber digits = true
  | .expr (.param (.named name)) => d.isWord name = true
  | .expr (.cast _ type _) => type.IsLexical d
  | .call f => d.IsFunctionName f.name
  | _ => True

/-- The name of a parameter has no dollar sign, in a dialect that writes strings between such signs. -/
def Node.IsDollarFree (d : Dialect) : Node → Prop
  | .expr (.param (.named name)) => d.lexical.dollarStrings = true → '$' ∉ name.toList
  | _ => True

/-- The types of the columns of a new table. -/
def Statement.columnTypes : Statement → List DataType
  | .createTable c => c.columns.map Column.type
  | _ => []

/-- The texts of a statement are texts of the dialect. -/
structure Statement.IsLexical (d : Dialect) (s : Statement) : Prop where
  nodes : ∀ x ∈ s.nodes, x.IsLexical d
  types : ∀ type ∈ s.columnTypes, type.IsLexical d

/-! ## Reading words and numbers -/

theorem Dialect.lexeme_of_readsAs {d : Dialect} {ks : List Token.Kind} {w : String}
    (h : d.readsAs ks w = true) : ∃ c cs l, w.toList = c :: cs ∧
      Lexer.lexeme d.lexical c cs = .ok l ∧ l.kind ∈ ks ∧ l.extra = cs.length := by
  unfold Dialect.readsAs at h
  split at h
  · cases h
  · next c cs hlist =>
    split at h
    · next l hl =>
      rw [Bool.and_eq_true] at h
      exact ⟨c, cs, l, hlist, hl, by simpa using h.1, by simpa using h.2⟩
    · cases h

theorem Dialect.isBare_of_isWord {d : Dialect} {w : String} (h : d.isWord w = true) :
    d.isBare w = true := by
  obtain ⟨c, cs, l, hlist, hlex, hkind, hextra⟩ := Dialect.lexeme_of_readsAs h
  have hword := Lexer.word_of_lexeme hlex (by simpa using hkind)
  unfold Lexer.word at hword
  split at hword
  · next hstart =>
    obtain rfl := Option.some.inj hword
    rw [Dialect.isBare, hlist]
    simp only [hstart, Bool.true_and, List.all_eq_true]
    have hfull : cs.takeWhile (Lexer.continuesWord d.lexical) = cs :=
      (List.takeWhile_prefix _).eq_of_length hextra
    exact fun x hx => List.mem_takeWhile_imp (hfull ▸ hx)
  · cases hword

theorem Dialect.continuesWord_of_isWord {d : Dialect} {w : String} (h : d.isWord w = true) :
    ∀ c ∈ w.toList, Lexer.continuesWord d.lexical c = true := by
  have hbare := Dialect.isBare_of_isWord h
  unfold Dialect.isBare at hbare
  split at hbare
  · cases hbare
  · next c cs hlist =>
    rw [Bool.and_eq_true, List.all_eq_true] at hbare
    rw [hlist]
    intro x hx
    rcases List.mem_cons.mp hx with rfl | hx
    · have hstart := hbare.1
      simp only [Lexer.startsWord, Lexer.continuesWord, isAlphanumeric, Bool.or_eq_true] at hstart ⊢
      tauto
    · exact hbare.2 x hx

theorem Dialect.number_of_isNumber {d : Dialect} {w : String} (h : d.isNumber w = true) :
    Lexer.number w.toList = some w.toList.length := by
  obtain ⟨c, cs, l, hlist, hlex, hkind, hextra⟩ := Dialect.lexeme_of_readsAs h
  obtain ⟨n, hn, rfl⟩ := Lexer.number_of_lexeme hlex (by simpa using hkind)
  have hpos := Lexer.number_pos hn
  have hlength : n - 1 = cs.length := hextra
  rw [hlist, hn, List.length_cons]
  congr 1
  omega

theorem amount_of_splitInterval? {text s : String} {unit : DateField}
    (h : splitInterval? text = some (s, unit)) :
    ∃ cs : List Char, cs ≠ [] ∧ (∀ c ∈ cs, (c.isDigit || c == '.') = true) ∧
      (s = String.ofList cs ∨ s = "-" ++ String.ofList cs) := by
  have hall {cs : List Char} {x : String × DateField}
      (h : (if (cs.isEmpty || !cs.all fun c => c.isDigit || c == '.') = true then none else some x) =
        some (s, unit)) : cs ≠ [] ∧ (∀ c ∈ cs, (c.isDigit || c == '.') = true) ∧ x.1 = s := by
    split at h
    · cases h
    · next hall =>
      rw [Bool.not_eq_true, Bool.or_eq_false_iff, Bool.not_eq_false', List.all_eq_true,
        List.isEmpty_eq_false_iff] at hall
      exact ⟨hall.1, hall.2, by rw [Option.some.inj h]⟩
  unfold splitInterval? at h
  split at h
  · split at h
    · dsimp only at h
      split at h
      · next hsign =>
        obtain ⟨hne, hdigits, rfl⟩ := hall h
        refine ⟨_, hne, hdigits, .inr ?_⟩
        have hlist := List.cons_head?_tail (by simpa using hsign)
        rw [← String.toList_inj, String.toList_append, String.toList_ofList (l := List.tail _)]
        exact hlist.symm
      · obtain ⟨hne, hdigits, rfl⟩ := hall h
        exact ⟨_, hne, hdigits, .inl String.ofList_toList.symm⟩
    · cases h
  · cases h

/-! ## Texts of leaves -/

namespace Relaid

variable {t : Target} {l : Layout} {turned : Bool} {a b : String} {as bs : List String}

theorem number (hx : Relaid t l turned) {digits : String} (h : t.dialect.isNumber digits = true) :
    Twin t.dialect turned digits digits :=
  Twins.of_spells fun _ hb =>
    .single (isToken_number hx.tidy.toLegible (Dialect.number_of_isNumber h) hb)

theorem string (hx : Relaid t l turned) (value : String) :
    Twin t.dialect turned (t.string value) ((t.laid l).string value) :=
  Twins.of_spells (a := t.string value) fun h hh =>
    .single (isToken_string hx.tidy.toLegible rfl value (by rintro rfl; revert hh; decide))

/-- A run of characters without quotes is the same in both layouts. -/
theorem run (hx : Relaid t l turned) {s : String} (h : Lexer.isRun t.dialect.lexical s.toList = true) :
    Twin t.dialect turned s s := by
  obtain ⟨ts, hts⟩ := spells_run hx.tidy.toLegible hx.tidy.parted h
  exact .of_spells fun b hb => hts b (mem_runEnds_of_closers hb)

theorem keyword (hx : Relaid t l turned) {s : String}
    (hs : s ∈ [t.dialect.writing.currentTimestamp, t.dialect.writing.exceptKeyword,
      t.dialect.writing.orReplace]) : Twin t.dialect turned s s := by
  have htemplates : ∀ w ∈ ["CURRENT_TIMESTAMP", "GETDATE()", "EXCEPT", "MINUS", "REPLACE", "ALTER"],
      isTemplate w.toList = true := by decide
  exact .text hx.tidy s (htemplates s (hx.tidy.keywords s hs))

theorem isDigit_of_toString {k : Nat} : ∀ c ∈ (toString k).toList, c.isDigit = true := by
  intro c hc
  rw [Nat.toString_eq_repr, Nat.toList_repr] at hc
  exact Nat.isDigit_of_mem_toDigits (by decide) (by decide) hc

theorem isRun_toString (hx : Relaid t l turned) (k : Nat) :
    Lexer.isRun t.dialect.lexical (toString k).toList = true :=
  Lexer.isRun_of_digits hx.tidy.plain fun c hc => by rw [isDigit_of_toString c hc, Bool.true_or]

theorem numeral (hx : Relaid t l turned) (k : Nat) :
    Twin t.dialect turned (toString k) (toString k) :=
  hx.run (hx.isRun_toString k)

/-! ### Types and calls -/

theorem isPhrase_typeName (hd : t.dialect.Tidy) (k : TypeKind) :
    t.dialect.isPhrase (t.dialect.typeName k) = true := by
  unfold Dialect.typeName Table.get?
  cases hfind : t.dialect.writing.typeNames.find? fun e => e.1 = k with
  | some entry => exact hd.types entry (List.mem_of_find?_eq_some hfind)
  | none =>
    have hstandard : isTemplate k.standardName.toList = true := by
      cases k <;> decide
    simp [Dialect.isPhrase, hstandard]

theorem spells_words (hd : t.dialect.Legible) {ws : List String}
    (hws : ∀ w ∈ ws, t.dialect.isBare w = true) {h : Option Char} (hh : h ∈ wordEnds) :
    Spells t.dialect h (String.intercalate " " ws).toList (ws.map t.dialect.bare) := by
  induction ws with
  | nil => exact .nil
  | cons w ws ih =>
    have hbare : t.dialect.isBare w = true := hws w (by simp)
    cases ws with
    | nil => simpa using Spells.single (isToken_word hd hbare hh)
    | cons next ws =>
      rw [String.intercalate_cons_cons, String.append_assoc, String.toList_append]
      have hgap : (" " ++ String.intercalate " " (next :: ws)).toList.head?.or h ∈ wordEnds := by
        rw [String.toList_append]
        exact (by decide : some ' ' ∈ wordEnds)
      refine .token (isToken_word hd hbare hgap) ?_
      rw [String.toList_append]
      exact .blank (.inl rfl) (ih fun x hx => hws x (by simp [hx]))

theorem typeText (hx : Relaid t l turned) {spelling : String} (h : t.dialect.IsTypeText spelling) :
    Twin t.dialect turned spelling spelling := by
  obtain ⟨ws, args, -, hws, hargs, hspelling⟩ := h
  have hwords {h : Option Char} (hh : h ∈ wordEnds) :=
    spells_words hx.tidy.toLegible (fun w hw => Dialect.isBare_of_isWord (hws w hw)) hh
  have htwin : Twin t.dialect turned (String.intercalate " " ws) (String.intercalate " " ws) :=
    .of_spells fun h hh => hwords (Spelled.closers_subset_wordEnds hh)
  rcases hspelling with rfl | ⟨left, hleft, gap, hgap, rfl⟩
  · exact htwin
  · have hlist : List.Forall₂ (Twin t.dialect turned) args args := by
      refine List.forall₂_same.mpr fun w hw => ?_
      rcases hargs w hw with hword | hnumber
      · exact Twins.of_spells fun h hh => .single (isToken_word hx.tidy.toLegible
          (Dialect.isBare_of_isWord hword) (Spelled.closers_subset_wordEnds hh))
      · exact hx.number hnumber
    have hopen : Lead t.dialect turned (String.intercalate " " ws ++ left)
        (String.intercalate " " ws ++ left) := by
      rcases List.mem_pair.mp hleft with rfl | rfl
      · exact .of_spells hx.tidy (c := '(') (by decide) (hwords (by decide))
      · exact htwin.lead hx.tidy " (" rfl
    have hjoint : isJoint gap = true := by
      rcases List.mem_pair.mp hgap with rfl | rfl <;> decide
    exact (hopen.then (Twin.joined hx.tidy hjoint hlist)).close hx.tidy

theorem dataType (hx : Relaid t l turned) {type : DataType} (h : type.IsLexical t.dialect) :
    Twin t.dialect turned (t.dataType type) ((t.laid l).dataType type) := by
  have hsame : (t.laid l).dataType type = t.dataType type := rfl
  rw [hsame]
  unfold Target.dataType
  split
  · next kind _ =>
    have hname := isPhrase_typeName hx.tidy kind
    dsimp only
    split
    · exact .phrase hx.tidy hname
    · have hparams : List.Forall₂ (Twin t.dialect turned) (type.params.map toString)
          (type.params.map toString) := by
        refine List.forall₂_same.mpr fun s hs => ?_
        obtain ⟨k, -, rfl⟩ := List.mem_map.mp hs
        exact hx.numeral k
      exact ((Lead.called hx.tidy hname).then (Twin.list hx.tidy hparams)).close hx.tidy
  · split
    · exact hx.typeText h
    · exact Lead.empty.twin

/-- The name of a function and the parenthesis behind it. -/
theorem functionText (hx : Relaid t l turned) {name : String} (h : t.dialect.IsFunctionName name) :
    Lead t.dialect turned (name ++ "(") (name ++ "(") := by
  obtain ⟨ws, -, hws, rfl⟩ := h
  have hdots : List.Forall₂ (Spelled.Dottable t.dialect) ws (ws.map t.dialect.bare) := by
    rw [List.forall₂_map_right_iff]
    exact List.forall₂_same.mpr fun w hw =>
      Spelled.dottable_bare hx.tidy.toLegible (Dialect.isBare_of_isWord (hws w hw))
  exact Lead.of_spells hx.tidy (c := '(') (by decide)
    (Spelled.spells_dots hx.tidy.toLegible hdots (by decide))

theorem calledName (hx : Relaid t l turned) {name : String}
    (hname : Lead t.dialect turned (name ++ "(") (name ++ "(")) :
    Lead t.dialect turned (t.calledName name ++ "(") (t.calledName name ++ "(") := by
  unfold Target.calledName Dialect.spelling? Table.get?
  cases hfind : t.dialect.writing.functionNames.find? fun e => e.1 = name with
  | none => exact hname
  | some entry =>
    have hphrase := hx.tidy.functions entry (List.mem_of_find?_eq_some hfind)
    rw [Option.map_some]
    cases hspelling : entry.2 with
    | rename other | swap other => exact .called hx.tidy (hphrase other (by rw [hspelling]; rfl))
    | position => exact hname

theorem calledArgs {α : Type} {R : α → α → Prop} (name : String) {as bs : List α}
    (h : List.Forall₂ R as bs) : List.Forall₂ R (t.calledArgs name as) (t.calledArgs name bs) := by
  unfold Target.calledArgs
  cases t.dialect.spelling? name with
  | none => exact h
  | some spelling =>
    cases spelling with
    | rename | position => exact h
    | swap =>
      cases h with
      | nil => exact .nil
      | cons h₁ h =>
        cases h with
        | nil => exact .cons h₁ .nil
        | cons h₂ h => exact .cons h₂ (.cons h₁ h)

theorem callText (hx : Relaid t l turned) {name : String}
    (hname : Lead t.dialect turned (name ++ "(") (name ++ "(")) (distinct : Bool)
    (h : List.Forall₂ (Twin t.dialect turned) as bs) :
    Twin t.dialect turned (t.callText name distinct as) ((t.laid l).callText name distinct bs) := by
  have hfirst : Lead t.dialect turned (if distinct then "DISTINCT " else "")
      (if distinct then "DISTINCT " else "") := by
    cases distinct with
    | true => exact .text hx.tidy "DISTINCT " rfl
    | false => exact .empty
  rw [Target.callText_eq, Target.callText_eq]
  exact (((hx.calledName hname).then hfirst).then (Twin.list hx.tidy (calledArgs name h))).close hx.tidy

theorem functionName (hx : Relaid t l turned) (canonical : String)
    (hname : isTemplate canonical.toList = true) :
    Lead t.dialect turned (t.functionName canonical ++ "(")
      ((t.laid l).functionName canonical ++ "(") := by
  have hcanonical : t.dialect.isPhrase canonical = true := by
    rw [Dialect.isPhrase, hname, Bool.true_or]
  have hsame : (t.laid l).functionName canonical = t.functionName canonical := rfl
  rw [hsame]
  refine .called hx.tidy ?_
  unfold Target.functionName Dialect.spelling? Table.get?
  cases hfind : t.dialect.writing.functionNames.find? fun e => e.1 = canonical with
  | none => exact hcanonical
  | some entry =>
    have hphrase := hx.tidy.functions entry (List.mem_of_find?_eq_some hfind)
    rw [Option.map_some]
    cases hspelling : entry.2 with
    | rename other => exact hphrase other (by rw [hspelling]; rfl)
    | swap | position => exact hcanonical

theorem whole (hx : Relaid t l turned) (h : List.Forall₂ (Twin t.dialect turned) as bs) :
    Twin t.dialect turned (t.whole as) ((t.laid l).whole bs) := by
  have hcall := ((hx.functionName "CONCAT" rfl).then (Twin.list hx.tidy h)).close hx.tidy
  cases h with
  | nil => exact hcall
  | cons hab h =>
    cases h with
    | nil => exact hab
    | cons => exact hcall

theorem wrap (hx : Relaid t l turned) (h : Twin t.dialect turned a b) (e : Expr) (parent : Precedence)
    (right : Bool) :
    Twin t.dialect turned (t.wrap e parent right a) ((t.laid l).wrap e parent right b) := by
  have hsame : (t.laid l).precedence e = t.precedence e := rfl
  unfold Target.wrap
  rw [hsame]
  dsimp only
  split
  · exact h.parens hx.tidy
  · exact h

/-! ### Signs and parameters -/

theorem isToken_sign (hd : t.dialect.Tidy) {c : Char} (hc : c ∈ ['-', '+', '~']) {h : Option Char}
    (hdash : ¬(c = '-' ∧ h = some '-')) :
    IsToken t.dialect h [c] (.operator, String.ofList [c]) := by
  obtain ⟨hmark, hfind, hlong⟩ := hd.signs c hc
  have hfirst : t.dialect.lexical.firstOperator [c] h = some (String.ofList [c]) := by
    rw [← hfind]
    refine List.find?_congr fun op hop => ?_
    rw [Bool.eq_iff_iff, beq_iff_eq, Bool.and_eq_true, bne_iff_ne]
    constructor
    · rintro ⟨hne, hstart⟩
      cases hlist : op.toList with
      | nil => exact absurd (by simpa using hlist) hne
      | cons x xs =>
        simp only [LexicalRules.mayStart, hlist, Bool.or_eq_true, List.isPrefixOf_iff_prefix,
          Bool.and_eq_true, List.cons_prefix_cons] at hstart
        rcases hstart with hstart | hstart
        · rw [List.head?_cons, hstart.1]
        · rw [List.head?_cons, hstart.1.1]
    · intro hhead
      rw [hlong op hop hhead]
      simp [LexicalRules.mayStart]
  have htoken : IsToken t.dialect h (String.ofList [c]).toList (.operator, String.ofList [c]) :=
    isToken_operator hd.toLegible
    (by
      intro x hx
      obtain rfl : c = x := by simpa using hx
      refine ⟨hmark, ?_⟩
      rintro rfl
      revert hc
      decide)
    (by simpa using hfirst)
    (by simp)
    (by
      rintro ⟨heq, hh⟩
      have : c = '-' := by simpa using congrArg String.toList heq
      exact hdash ⟨this, hh⟩)
    (by
      rintro ⟨heq, -⟩
      obtain rfl : c = '/' := by simpa using congrArg String.toList heq
      revert hc
      decide)
  simpa using htoken

theorem sign (hd : t.dialect.Tidy) {c : Char} (hc : c ∈ ['+', '~']) :
    Lead t.dialect turned (String.ofList [c]) (String.ofList [c]) := by
  have hspells (h : Option Char) :
      Spells t.dialect h (String.ofList [c]).toList [(.operator, String.ofList [c])] := by
    rw [String.toList_ofList]
    refine .single (isToken_sign hd (List.mem_cons_of_mem _ hc) ?_)
    rintro ⟨rfl, -⟩
    revert hc
    decide
  exact Twins.of_spells fun h _ => hspells h

/-- A minus sign, with a blank where a second one follows. -/
theorem spelled_minus (hd : t.dialect.Tidy) {s : String} {ts : List Shape} (h : Spelled t.dialect s ts) :
    Spelled t.dialect (Target.unaryText .minus s) ((.operator, "-") :: ts) := by
  intro b hb
  have htoken {h : Option Char} (hh : h ≠ some '-') :
      IsToken t.dialect h ['-'] (.operator, "-") :=
    isToken_sign hd (by decide) fun hdash => hh hdash.2
  unfold Target.unaryText
  dsimp only
  split
  · rw [show (s!"- {s}").toList = ['-'] ++ ' ' :: s.toList from String.toList_append]
    exact .token (htoken (by simp)) (.blank (.inl rfl) (h b hb))
  · next hhead =>
    rw [show (s!"-{s}").toList = ['-'] ++ s.toList from String.toList_append]
    refine .token (htoken ?_) (h b hb)
    intro heq
    cases hlist : s.toList with
    | nil =>
      rw [hlist] at heq
      obtain rfl : b = some '-' := by simpa using heq
      revert hb
      decide
    | cons x xs => simp_all

theorem unaryText (hx : Relaid t l turned) (op : UnaryOp) (h : Twin t.dialect turned a b) :
    Twin t.dialect turned (Target.unaryText op a) (Target.unaryText op b) := by
  cases op with
  | not => exact (Lead.text hx.tidy "NOT " rfl).then h
  | plus => exact (sign hx.tidy (c := '+') (by decide)).then h
  | bitNot => exact (sign hx.tidy (c := '~') (by decide)).then h
  | minus =>
    obtain ⟨ts, us, ha, hb, hrel⟩ := h
    exact .of_spelled (spelled_minus hx.tidy ha) (spelled_minus hx.tidy hb) (.cons (.refl turned _) hrel)

/-- A parameter: a mark and a run behind it, from which no string starts. -/
theorem marked (hx : Relaid t l turned) {c : Char} (hc : c ∈ ['$', '@', ':', '?']) {s : String}
    (hs : Lexer.isRun t.dialect.lexical s.toList = true)
    (hdollar : t.dialect.lexical.dollarStrings = true → '$' ∉ s.toList) :
    Twin t.dialect turned (String.ofList [c] ++ s) (String.ofList [c] ++ s) := by
  refine hx.run ?_
  rw [String.toList_append, String.toList_ofList]
  exact Lexer.isRun_marked hx.tidy.parted hc hs fun h _ => Lexer.dollarTag_eq_none (hdollar h)

/-- An ordinal behind its mark. -/
theorem markedNumeral (hx : Relaid t l turned) {c : Char} (hc : c ∈ ['$', '@', ':', '?']) (k : Nat) :
    Twin t.dialect turned (String.ofList [c] ++ toString k) (String.ofList [c] ++ toString k) :=
  hx.marked hc (hx.isRun_toString k) fun _ hmem => absurd (isDigit_of_toString _ hmem) (by decide)

/-- The amount of an interval: digits and points, with a sign before them or not. -/
theorem amount (hx : Relaid t l turned) {text s : String} {unit : DateField}
    (h : splitInterval? text = some (s, unit)) : Twin t.dialect turned s s := by
  obtain ⟨cs, -, hcs, hs⟩ := amount_of_splitInterval? h
  have hdigits : Twin t.dialect turned (String.ofList cs) (String.ofList cs) := by
    refine hx.run (Lexer.isRun_of_digits hx.tidy.plain ?_)
    simpa using hcs
  rcases hs with rfl | rfl
  · exact hdigits
  · have hhead : ((String.ofList cs).toList.head? == some '-') = false := by
      rw [String.toList_ofList, beq_eq_false_iff_ne]
      intro hhead
      exact absurd (hcs '-' (List.mem_of_head? hhead)) (by decide)
    have hminus := hx.unaryText .minus hdigits
    unfold Target.unaryText at hminus
    rw [hhead] at hminus
    exact hminus

end Relaid

end SqlDialects
