import SqlDialects.Proofs.Nesting
import SqlDialects.Proofs.Rereading
import SqlDialects.Proofs.Selects

/-!
# Intervals that nest without a level

* `Expr.intervals`, `intervalWords` : intervals in each other and their words;
* `operandFrom_intervals` : where the amount of an interval is bare, an operand of any number of
  intervals is read without a level of nesting;
* `parse_intervals` : so is a statement of them;
* `nesting_bound` : how deep a statement that is read can be.
-/

namespace SqlDialects

/-! ## Intervals in each other -/

/-- `n` intervals around a null. -/
def Expr.intervals : Nat → Expr
  | 0 => .literal .null
  | n + 1 => .interval (Expr.intervals n) (some .day)

theorem Expr.depth_intervals (n : Nat) : (Expr.intervals n).depth 1 = n := by
  induction n with
  | zero => simp only [Expr.intervals, Expr.depth]
  | succ n ih => rw [Expr.intervals, Expr.depth, ih]

/-- The words of `n` intervals around a null. -/
def intervalWords (n : Nat) : List String :=
  List.replicate n "INTERVAL" ++ "NULL" :: List.replicate n "DAY"

theorem intervalWords_succ (n : Nat) :
    intervalWords (n + 1) = "INTERVAL" :: (intervalWords n ++ ["DAY"]) := by
  rw [intervalWords, List.replicate_succ (a := "INTERVAL"), List.replicate_succ' (a := "DAY")]
  simp [intervalWords]

section Intervals

variable {F : Lapses} {d : Dialect} {ts us vs : List Shape}

theorem kind_bare (d : Dialect) (w : String) : (d.bare w).1 = .keyword ∨ (d.bare w).1 = .word := by
  unfold Dialect.bare Dialect.wordKind
  split
  · exact .inl rfl
  · exact .inr rfl

/-- An operand that starts with a bare word is what the word introduces. -/
theorem reads_word {deeper : Deeper} {operand f : Parser Expr} {w : String} {e : Expr}
    (hnot : Text.sameWord w "NOT" = false)
    (hform : ∀ called, Parser.wordForm? deeper operand d (Text.upper w) called = some f)
    (h : ReadsOr F d f (d.bare w :: ts) e us) :
    ReadsOr F d (Parser.operandWith deeper operand) (d.bare w :: ts) e us :=
  operandWith_primary (by simpa using hnot) (unaryOp_bare d w)
    (primary_bare fun _ ht => wordExpr_form ht rfl (hform _) h)

theorem reads_null (deeper : Deeper) (operand : Parser Expr) :
    Reads d (Parser.operandWith deeper operand) (d.bare "NULL" :: ts) (.literal .null) ts :=
  have hupper : Text.upper "NULL" = "NULL" := by decide +kernel
  reads_word (by decide +kernel) (fun called => by rw [Parser.wordForm?, hupper]; rfl)
    (.advance fun _ _ => .pure _)

/-- The standard spelling of a part of a date is read as that part. -/
theorem reads_field (u : DateField) :
    ReadsOr F d Parser.dateField (d.bare u.keyword :: ts) u ts := by
  refine .peek fun t ht => ?_
  have htext : t.text = u.keyword := congrArg Prod.snd ht
  have hbare : t.isBareWord = true := by
    have : t.kind = (d.bare u.keyword).1 := congrArg Prod.fst ht
    rcases kind_bare d u.keyword with hk | hk <;> simp [Token.isBareWord, this, hk]
  have hfield : DateField.ofWord? u.keyword = some u := by cases u <;> decide +kernel
  simp only [hbare, if_true, htext, hfield]
  exact .advance fun _ _ => .pure _

/-- The amount of an interval is read by the operand inside, which has no level of its own. -/
theorem reads_interval (hstyle : d.writing.interval = some .bare) {deeper : Deeper}
    {operand : Parser Expr} {e : Expr} {u : DateField} (h : ReadsOr F d operand ts e vs)
    (hfield : ReadsOr F d Parser.dateField vs u us) :
    ReadsOr F d (Parser.operandWith deeper operand) (d.bare "INTERVAL" :: ts)
      (.interval e (some u)) us := by
  refine reads_word (f := Parser.intervalExpr operand) (by decide +kernel) (fun called => ?_) ?_
  · have hupper : Text.upper "INTERVAL" = "INTERVAL" := by decide +kernel
    simp [Parser.wordForm?, hupper, hstyle]
  · refine (ReadsOr.expectWord (by simp; decide +kernel)).bind (.dialect ?_)
    simp only [hstyle]
    exact h.bind (hfield.bind (.pure _))

/-- With no level left at all, any number of intervals in each other is read. -/
theorem operandUpTo_intervals (hstyle : d.writing.interval = some .bare) (deeper : Deeper) (n : Nat)
    {k : Nat} (hk : n < k) :
    Reads d (Parser.operandUpTo deeper k) ((intervalWords n).map d.bare ++ ts) (.intervals n) ts := by
  induction n generalizing k ts with
  | zero =>
    obtain ⟨k, rfl⟩ := Nat.exists_eq_add_one_of_ne_zero (Nat.ne_zero_of_lt hk)
    exact reads_null deeper _
  | succ n ih =>
    obtain ⟨k, rfl⟩ := Nat.exists_eq_add_one_of_ne_zero (Nat.ne_zero_of_lt hk)
    rw [intervalWords_succ, List.map_cons, List.map_append, List.cons_append, List.append_assoc]
    exact reads_interval hstyle (ih (Nat.lt_of_succ_lt_succ hk)) (reads_field .day)

theorem operandFrom_intervals (hstyle : d.writing.interval = some .bare) (deeper : Deeper) (n : Nat)
    (ts : List Shape) :
    Reads d (Parser.operandFrom deeper) ((intervalWords n).map d.bare ++ ts) (.intervals n) ts := by
  refine .remaining (operandUpTo_intervals hstyle deeper n ?_)
  simp only [List.length_append, List.length_map, intervalWords, List.length_replicate,
    List.length_cons]
  omega

/-! ## Statements of intervals -/

/-- The statement that selects `e` alone. -/
def Statement.selecting (e : Expr) : Statement :=
  .query (.ofBody (.select ⟨none, [.expr e none], [], none, [], none, none⟩))

/-- Nothing is read at the end of the tokens. -/
theorem eatWord_end (word : String) : ReadsOr F d (Parser.eatWord word) [] false [] :=
  .eatWord_no (by simp)

theorem eatSymbol_end (symbol : String) : ReadsOr F d (Parser.eatSymbol symbol) [] false [] :=
  .eatSymbol_no (by simp)

/-- At the end of the tokens nothing joins an operand. -/
theorem subexpr_alone {deeper : Deeper} {least : Precedence} {e : Expr}
    (h : ReadsOr F d (Parser.operandFrom deeper) ts e []) :
    ReadsOr F d (Parser.subexpr deeper least) ts e [] :=
  h.bind (.iterate (iterates_stop (Ends.nil d least).next))

theorem subexpr_intervals (hstyle : d.writing.interval = some .bare) (deeper : Deeper) (n : Nat) :
    Reads d (Parser.subexpr deeper 0) ((intervalWords n).map d.bare) (.intervals n) [] := by
  have hoperand := operandFrom_intervals hstyle deeper n []
  rw [List.append_nil] at hoperand
  exact subexpr_alone hoperand

/-- Words are no symbols, and neither is the end behind them. -/
theorem isSymbol_nthShape_bare (ws : List String) (k : Nat) (symbol : String) :
    (nthShape (ws.map d.bare) k).isSymbol symbol = false := by
  unfold nthShape
  rw [List.getD_eq_getElem?_getD, List.getElem?_map]
  cases ws[k]? with
  | none => rfl
  | some w => exact Shape.isSymbol_bare d w symbol

theorem select_words (hfrom : d.reading.requireFrom = false) (deeper : Deeper) {w : String}
    {ws : List String} {e : Expr} (hw : ∀ x ∈ ["DISTINCT", "ALL", "TOP"], Text.sameWord w x = false)
    (h : ReadsOr F d (deeper.expr 0) ((w :: ws).map d.bare) e []) :
    ReadsOr F d (Parser.select deeper) (d.bare "SELECT" :: (w :: ws).map d.bare)
      (⟨none, [.expr e none], [], none, [], none, none⟩, none) [] := by
  have hnone : NoneNext ((w :: ws).map d.bare) ["DISTINCT", "ALL", "TOP"] := .bare d _ hw
  have hdot : (nthShape ((w :: ws).map d.bare) 1).isSymbol "." = false :=
    isSymbol_nthShape_bare (w :: ws) 1 "."
  have hitem : ReadsOr F d (Parser.selectItem deeper) ((w :: ws).map d.bare) (.expr e none) [] :=
    selectItem_expr h (isSymbol_nthShape_bare (w :: ws) 0 "*") (by rw [hdot, Bool.and_false])
      (.nil _) rfl
  have hmore : ReadsOr F d (Parser.afterCommas (Parser.selectItem deeper)) [] [] [] :=
    .many_stop (.optional_no (eatSymbol_end ","))
  refine select_plain (hnone.mono (by decide)) (optionalTop_no fun _ => hnone.mono (by decide))
    (hitem.bind (hmore.bind (.pure _))) ?_ (.nil _)
  exact (eatWord_end "FROM").bind (.rules (by simp only [hfrom]; exact .pure []))

/-- A text of one query is one statement. -/
theorem statements_words {ws : List String} {q : Query}
    (h : ReadsOr F d Parser.query (d.bare "SELECT" :: ws.map d.bare) q []) :
    ReadsOr F d Parser.statements (d.bare "SELECT" :: ws.map d.bare) [.query q] [] := by
  have hsemicolons {ts : List Shape} (hts : (headShape ts).isSymbol ";" = false) :
      ReadsOr F d (Parser.many Parser.semicolon) ts [] ts :=
    .many_stop ((ReadsOr.eatSymbol_no hts).bind (.pure none))
  have hdone : ReadsOr F d Parser.nextStatement [] none [] := by
    refine (hsemicolons (by simp)).bind ?_
    exact ReadsOr.atEnd.bind (.pure none)
  have hstatement : ReadsOr F d Parser.statement (d.bare "SELECT" :: ws.map d.bare) (.query q) [] := by
    have hselect : Text.sameWord "SELECT" "SELECT" = true := by decide +kernel
    refine ReadsOr.bind (a := true) (u := d.bare "SELECT" :: ws.map d.bare) ?_ (h.bind (.pure _))
    exact (ReadsOr.checkWord (by simpa using hselect)).bind (.pure true)
  have hnext : ReadsOr F d Parser.nextStatement (d.bare "SELECT" :: ws.map d.bare)
      (some (.query q)) [] := by
    refine (hsemicolons (by simp)).bind ?_
    refine ReadsOr.atEnd.bind ?_
    refine ReadsOr.bind (a := ()) (u := d.bare "SELECT" :: ws.map d.bare) ?_ ?_
    · exact fun i c hat => .inl ⟨_, rfl, hat.dialect, hat.finish, hat.rest⟩
    · refine hstatement.bind ?_
      exact ReadsOr.atEnd.bind (.pure _)
  refine .remaining (hnext.bind (ReadsOr.bind (a := []) (u := []) ?_ (.pure _)))
  exact hdone.bind (.pure [])

/-- Where the amount of an interval is bare, a statement of any number of intervals in each other is
read. -/
theorem parse_intervals (hd : d.Legible) (hstyle : d.writing.interval = some .bare)
    (hfrom : d.reading.requireFrom = false) (n : Nat) :
    parse d (String.intercalate " " ("SELECT" :: intervalWords n)) =
      .ok [.selecting (.intervals n)] := by
  have hplain : ∀ w ∈ "SELECT" :: intervalWords n, Spelled.isPlainWord w = true := by
    intro w hw
    have hcases : w ∈ ["SELECT", "INTERVAL", "NULL", "DAY"] := by
      simp only [intervalWords, List.mem_cons, List.mem_append, List.mem_replicate] at hw ⊢
      tauto
    clear hw
    revert w
    decide +kernel
  obtain ⟨tokens, finish, htokens, hat⟩ := (Spelled.phrase hd hplain).tokenize
  have hword (w : String) (ws : List String) (hws : w :: ws = intervalWords n) :
      ∀ x ∈ ["DISTINCT", "ALL", "TOP"], Text.sameWord w x = false := by
    have hw : w ∈ ["INTERVAL", "NULL"] := by
      cases n with
      | zero => simp [intervalWords] at hws; simp [hws.1]
      | succ n => rw [intervalWords_succ] at hws; simp_all
    clear hws
    revert w
    decide +kernel
  obtain ⟨w, ws, hws⟩ : ∃ w ws, w :: ws = intervalWords n := by
    cases n with
    | zero => exact ⟨_, _, rfl⟩
    | succ n => exact ⟨_, _, (intervalWords_succ n).symm⟩
  have hexpr := (subexpr_intervals hstyle (Parser.nested 126) n).level (Lapses.limited_short 0)
  have hselect := select_words hfrom (Parser.nested 127) (hword w ws hws) (hws ▸ hexpr)
  have hquery := ReadsWith.level (queryWith_select hselect (.nil _))
  rw [← Parser.query_eq] at hquery
  obtain ⟨c, hrun, -⟩ := ReadsWith.run (statements_words hquery) (hws ▸ hat) (by decide)
  rw [parse, htokens]
  exact congrArg Prod.fst hrun

end Intervals

/-- Every statement that is read is at most `4 * maxDepth` steps deep as long as amounts of intervals
and distances of window frames count nothing. Counted in full, no depth is the greatest: intervals nest
in each other without a bound. -/
theorem nesting_bound (d : Dialect) (sql : String) (n : Nat) :
    (∀ ss, parse d sql = .ok ss → ∀ s ∈ ss, s.depth 0 ≤ 4 * Parser.maxDepth) ∧
      ∃ deep s, parse .mysql deep = .ok [s] ∧ n < s.depth 1 := by
  refine ⟨fun ss h => parsed_depth_le h, ?_⟩
  have hparse := parse_intervals (legible_of_mem_builtins (d := .mysql) (by decide +kernel))
    (by decide +kernel) (by decide +kernel) n
  refine ⟨_, _, hparse, ?_⟩
  simp only [Statement.selecting, Statement.depth, Query.ofBody, Query.depth, Body.depth,
    Select.depth, itemDepth, Expr.depth_intervals]
  omega

end SqlDialects
