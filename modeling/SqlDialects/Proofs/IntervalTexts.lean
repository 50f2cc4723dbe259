import SqlDialects.Proofs.IntervalChains
import SqlDialects.Proofs.LayoutTokens

/-!
# Intervals that were strings

* `Lexer.isDecimal`, `Lexer.number_run` : a run of digits and points is one number if it has a digit and
  at most one point;
* `AmountTokens` : what such a run is cut into, be it one number or not;
* `intervalText_survives_iff` : the text of an interval whose amount comes out of a string is read back
  if the amount is one number, and refused if not.

The amount of a string may have any number of points, as in `1.2.3 days`, and needs no digit. The lexer
takes a point into a number only once.
-/

namespace SqlDialects

open Text

/-! ## Runs of digits and points -/

namespace Lexer

variable {r : LexicalRules} {c : Char} {cs : List Char}

/-- Whether a run of digits and points is one number. -/
def isDecimal (cs : List Char) : Bool := cs.any Char.isDigit && decide (cs.count '.' ≤ 1)

theorem digits_eq_length_iff : digits cs = cs.length ↔ ∀ c ∈ cs, c.isDigit = true := by
  rw [← List.takeWhile_eq_self_iff, digits]
  exact ⟨(List.takeWhile_prefix _).eq_of_length, congrArg List.length⟩

/-- A run of digits and points has digits alone, or goes on with a point behind its first digits. -/
theorem run_cases (hcs : ∀ c ∈ cs, (c.isDigit || c == '.') = true) :
    (∀ c ∈ cs, c.isDigit = true) ∨ ∃ whole rest, cs = whole ++ '.' :: rest ∧
      (∀ c ∈ whole, c.isDigit = true) ∧ ∀ c ∈ rest, (c.isDigit || c == '.') = true := by
  induction cs with
  | nil => exact .inl (by simp)
  | cons c cs ih =>
    obtain ⟨hc, htail⟩ := List.forall_mem_cons.mp hcs
    by_cases hdigit : c.isDigit = true
    · rcases ih htail with hall | ⟨whole, rest, rfl, hwhole, hrest⟩
      · exact .inl (List.forall_mem_cons.mpr ⟨hdigit, hall⟩)
      · exact .inr ⟨c :: whole, rest, rfl, List.forall_mem_cons.mpr ⟨hdigit, hwhole⟩, hrest⟩
    · obtain rfl : c = '.' := by simpa [hdigit] using hc
      exact .inr ⟨[], cs, rfl, by simp, htail⟩

theorem exponent_run (hcs : ∀ c ∈ cs, (c.isDigit || c == '.') = true) : exponent cs = 0 := by
  cases cs with
  | nil => rfl
  | cons c cs =>
    have hc : (c == 'e' || c == 'E') = false := by
      by_contra he
      rw [Bool.not_eq_false, Bool.or_eq_true, beq_iff_eq, beq_iff_eq] at he
      have := hcs c (by simp)
      rcases he with rfl | rfl <;> revert this <;> decide
    simp [exponent, hc]

theorem number_eq_mantissa (hcs : ∀ c ∈ cs, (c.isDigit || c == '.') = true) :
    number cs = mantissa cs := by
  have hexponent (n : Nat) : exponent (cs.drop n) = 0 :=
    exponent_run fun c hc => hcs c (List.mem_of_mem_drop hc)
  simp [number, hexponent]

theorem not_isDigit_dot : ¬('.' : Char).isDigit = true := by decide

/-- A run of digits and points is one number if it has a digit and no second point. -/
theorem number_run (hcs : ∀ c ∈ cs, (c.isDigit || c == '.') = true) :
    number cs = some cs.length ↔ isDecimal cs = true := by
  rw [number_eq_mantissa hcs, isDecimal, Bool.and_eq_true, List.any_eq_true, decide_eq_true_eq]
  rcases run_cases hcs with hall | ⟨whole, rest, rfl, hwhole, hrest⟩
  · have hdigits := digits_eq_length_iff.mpr hall
    have hcount : cs.count '.' = 0 :=
      List.count_eq_zero.mpr fun hdot => not_isDigit_dot (hall '.' hdot)
    rw [mantissa, hdigits, List.drop_length, hcount]
    cases cs with
    | nil => simp
    | cons c cs => simpa using .inl (hall c (by simp))
  · have hdigits : digits (whole ++ '.' :: rest) = whole.length := by
      rw [digits_append (by simp), digits_eq_length_iff.mpr hwhole]
    have hcount : (whole ++ '.' :: rest).count '.' = rest.count '.' + 1 := by
      have hzero : whole.count '.' = 0 :=
        List.count_eq_zero.mpr fun hdot => not_isDigit_dot (hwhole '.' hdot)
      rw [List.count_append, hzero, List.count_cons_self, Nat.zero_add]
    have hpoints : rest.count '.' + 1 ≤ 1 ↔ digits rest = rest.length := by
      rw [digits_eq_length_iff, Nat.add_le_add_iff_right, Nat.le_zero, List.count_eq_zero]
      refine ⟨fun hdot c hc => ?_, fun hall hdot => not_isDigit_dot (hall '.' hdot)⟩
      have := hrest c hc
      rw [Bool.or_eq_true, beq_iff_eq] at this
      exact this.resolve_right fun h => hdot (h ▸ hc)
    rw [mantissa, hdigits, List.drop_left, hcount, hpoints, List.length_append, List.length_cons]
    simp only [Bool.or_eq_true, decide_eq_true_eq]
    by_cases hfull : digits rest = rest.length
    · have hsome : (∃ c ∈ whole ++ '.' :: rest, c.isDigit = true) ↔
          0 < whole.length ∨ 0 < rest.length := by
        have hall := digits_eq_length_iff.mp hfull
        constructor
        · rintro ⟨c, hc, hdigit⟩
          rcases List.mem_append.mp hc with hc | hc
          · exact .inl (List.length_pos_of_mem hc)
          · rcases List.mem_cons.mp hc with rfl | hc
            · exact absurd hdigit not_isDigit_dot
            · exact .inr (List.length_pos_of_mem hc)
        · rintro (hpos | hpos)
          · obtain ⟨c, hc⟩ := List.exists_mem_of_length_pos hpos
            exact ⟨c, by simp [hc], hwhole c hc⟩
          · obtain ⟨c, hc⟩ := List.exists_mem_of_length_pos hpos
            exact ⟨c, by simp [hc], hall c hc⟩
      rw [hsome, hfull, and_iff_left rfl, Nat.add_assoc, Nat.add_comm 1]
      simp only [Option.ite_none_right_eq_some, and_true]
    · refine iff_of_false (fun h => ?_) fun h => hfull h.2
      split at h
      · have := Option.some.inj h
        omega
      · cases h

theorem number_digit (hc : c.isDigit = true) : number (c :: cs) ≠ none := by
  have hpos : 0 < digits (c :: cs) := by simp [digits, hc]
  unfold number mantissa
  dsimp only
  split <;> simp [hpos]

theorem number_point {x : Char} (hx : x.isDigit = true) : number ('.' :: x :: cs) ≠ none := by
  have hpos : 0 < digits (x :: cs) := by simp [digits, hx]
  have hzero : digits ('.' :: x :: cs) = 0 := by simp [digits]
  unfold number mantissa
  simp [hzero, hpos]

/-- At a digit or a point stands a number, or else the point alone. -/
theorem lexeme_numeral (hr : r.Plain) (hc : (c.isDigit || c == '.') = true) :
    lexeme r c cs = .ok (match number (c :: cs) with
      | some n => ⟨.number, n - 1, none⟩
      | none => ⟨.punctuation, 0, none⟩) := by
  rw [Bool.or_eq_true, beq_iff_eq] at hc
  cases hnumber : number (c :: cs) with
  | some n =>
    have hmem : c ∈ '.' :: LexicalRules.decimalDigits := by
      rcases hc with hc | rfl
      · exact List.mem_cons_of_mem _ (mem_digits_of_isDigit hc)
      · exact List.mem_cons_self ..
    have hne : c ≠ '-' ∧ c ≠ '/' := by
      constructor <;> rintro rfl <;> revert hmem <;> decide
    rw [lexeme_free (hr.numbers c hmem) (fun h => hne.1 h.1) (fun h => hne.2 h.1), hnumber]
    simp
  | none =>
    obtain rfl := hc.resolve_left fun hdigit => number_digit hdigit hnumber
    refine lexeme_dot hr fun x hx => ?_
    cases cs with
    | nil => cases hx
    | cons y cs =>
      obtain rfl := Option.some.inj hx
      exact Bool.eq_false_iff.mpr fun hdigit => number_point hdigit hnumber

end Lexer

/-! ## The tokens of an amount -/

/-- Whether a token is a number or a point. -/
def Shape.isNumeral (s : Shape) : Prop := s.1 = .number ∨ s = .mark "."

/-- What is cut from the run `cs` of digits and points: one number if it is one, and else a point or
a number with a number or a point behind it. -/
inductive AmountTokens (cs : List Char) : List Shape → Prop where
  | number : Lexer.isDecimal cs = true → AmountTokens cs [(.number, .ofList cs)]
  | point {ts : List Shape} : Lexer.isDecimal cs = false → AmountTokens cs (.mark "." :: ts)
  | numbers {w : String} {s : Shape} {ts : List Shape} : Lexer.isDecimal cs = false → s.isNumeral →
      AmountTokens cs ((.number, w) :: s :: ts)

section Amounts

variable {r : LexicalRules} {c : Char} {cs : List Char} {p : Position} {spaced : Bool}

theorem scanFrom_number {n : Nat} (hr : r.Plain) (hc : (c.isDigit || c == '.') = true)
    (hnumber : Lexer.number (c :: cs) = some (n + 1)) :
    (scanFrom r false p spaced (c :: cs)).tokens = ⟨.number, .ofList (c :: cs.take n), p, spaced⟩ ::
      (scanFrom r false (p.after (c :: cs.take n)) false (cs.drop n)).tokens := by
  have hlexeme : Lexer.lexeme r c cs = _ := Lexer.lexeme_numeral hr hc
  rw [hnumber] at hlexeme
  rw [scanFrom, hlexeme]
  rfl

theorem scanFrom_point (hr : r.Plain) (hnumber : Lexer.number ('.' :: cs) = none) :
    (scanFrom r false p spaced ('.' :: cs)).tokens = ⟨.punctuation, ".", p, spaced⟩ ::
      (scanFrom r false (p.after ['.']) false cs).tokens := by
  have hlexeme : Lexer.lexeme r '.' cs = _ := Lexer.lexeme_numeral hr (by decide)
  rw [hnumber] at hlexeme
  rw [scanFrom, hlexeme]
  rfl

/-- A digit or a point that starts no number is a point. -/
theorem eq_point (hc : (c.isDigit || c == '.') = true) (hnumber : Lexer.number (c :: cs) = none) :
    c = '.' := by
  rw [Bool.or_eq_true, beq_iff_eq] at hc
  exact hc.resolve_left fun hdigit => Lexer.number_digit hdigit hnumber

/-- At a digit or a point a number or a point is cut off. -/
theorem scanFrom_numeral (hr : r.Plain) (hc : (c.isDigit || c == '.') = true) :
    ∃ t ts, (scanFrom r false p spaced (c :: cs)).tokens = t :: ts ∧ t.shape.isNumeral := by
  cases hnumber : Lexer.number (c :: cs) with
  | none =>
    obtain rfl := eq_point hc hnumber
    exact ⟨_, _, scanFrom_point hr hnumber, .inr rfl⟩
  | some n =>
    obtain ⟨n, rfl⟩ := Nat.exists_eq_add_one.mpr (Lexer.number_pos hnumber)
    exact ⟨_, _, scanFrom_number hr hc hnumber, .inl rfl⟩

theorem scanFrom_amount (hr : r.Plain) (hne : cs ≠ [])
    (hcs : ∀ c ∈ cs, (c.isDigit || c == '.') = true) :
    AmountTokens cs ((scanFrom r false p spaced cs).tokens.map Token.shape) := by
  have hdecimal := Lexer.number_run hcs
  obtain ⟨c, cs, rfl⟩ := List.exists_cons_of_ne_nil hne
  obtain ⟨hc, htail⟩ := List.forall_mem_cons.mp hcs
  cases hnumber : Lexer.number (c :: cs) with
  | none =>
    obtain rfl := eq_point hc hnumber
    rw [scanFrom_point hr hnumber]
    exact .point (by simpa [hnumber] using hdecimal)
  | some n =>
    obtain ⟨n, rfl⟩ := Nat.exists_eq_add_one.mpr (Lexer.number_pos hnumber)
    rw [scanFrom_number hr hc hnumber, List.map_cons]
    rw [hnumber, Option.some_inj, List.length_cons, Nat.add_right_cancel_iff] at hdecimal
    cases hrest : cs.drop n with
    | nil =>
      have hle := Lexer.number_le hnumber
      rw [List.drop_eq_nil_iff] at hrest
      rw [List.length_cons] at hle
      have hlength : n = cs.length := by omega
      rw [List.take_of_length_le hrest, scanFrom]
      exact .number (hdecimal.mp hlength)
    | cons x rest =>
      have hx := htail x (List.mem_of_mem_drop (hrest ▸ List.mem_cons_self ..))
      obtain ⟨t, ts, htokens, ht⟩ :
          ∃ t ts, (scanFrom r false (p.after (c :: cs.take n)) false (x :: rest)).tokens = t :: ts ∧
            t.shape.isNumeral := scanFrom_numeral hr hx
      have hshort : n ≠ cs.length := by
        rintro rfl
        simp at hrest
      rw [htokens]
      exact .numbers (Bool.eq_false_iff.mpr fun h => hshort (hdecimal.mpr h)) ht

/-- The amount of an interval is cut into the tokens of a run of digits and points. -/
theorem amount_spelled {d : Dialect} (hd : d.Tidy) (hne : cs ≠ [])
    (hcs : ∀ c ∈ cs, (c.isDigit || c == '.') = true) :
    ∃ ts, Spelled d (.ofList cs) ts ∧ AmountTokens cs ts := by
  obtain ⟨ts, hts⟩ := spells_run hd.toLegible hd.parted (Lexer.isRun_of_digits hd.plain hcs)
  have hshapes := ((hts none (by decide)).scan .start false).1
  exact ⟨ts, fun h hh => by simpa using hts h (mem_runEnds_of_closers hh),
    hshapes ▸ scanFrom_amount hd.plain hne hcs⟩

end Amounts

/-! ## Amounts with a sign -/

/-- Whether an amount has a sign. -/
def isNegative (amount : String) : Bool := amount.toList.head? == some '-'

/-- The characters of an amount behind its sign. -/
def unsigned (amount : String) : List Char :=
  if isNegative amount then amount.toList.tail else amount.toList

/-- The tokens of a sign. -/
def signTokens (negative : Bool) : List Shape := if negative then [(.operator, "-")] else []

/-- A number or the minus of one. -/
def signedNumber (negative : Bool) (w : String) : Expr :=
  if negative then .unary .minus (.literal (.number w)) else .literal (.number w)

/-- The amount of an interval as an expression. -/
def amountExpr (amount : String) : Expr :=
  signedNumber (isNegative amount) (.ofList (unsigned amount))

/-- The tokens of an amount are those of its sign and of a run of digits and points. -/
theorem splitInterval_spelled {d : Dialect} (hd : d.Tidy) {s amount : String} {u : DateField}
    (h : splitInterval? s = some (amount, u)) :
    ∃ ts, Spelled d amount (signTokens (isNegative amount) ++ ts) ∧
      AmountTokens (unsigned amount) ts := by
  obtain ⟨cs, hne, hcs, hamount⟩ := amount_of_splitInterval? h
  obtain ⟨ts, hspelled, htokens⟩ := amount_spelled hd hne hcs
  have hsign : (cs.head? == some '-') = false := by
    rw [beq_eq_false_iff_ne]
    exact fun hhead => absurd (hcs '-' (List.mem_of_head? hhead)) (by decide)
  refine ⟨ts, ?_⟩
  rcases hamount with rfl | rfl
  · have hnegative : isNegative (.ofList cs) = false := by simpa [isNegative] using hsign
    simpa [unsigned, hnegative, signTokens] using ⟨hspelled, htokens⟩
  · have hlist : ("-" ++ String.ofList cs).toList = '-' :: cs := by simp
    have hnegative : isNegative ("-" ++ .ofList cs) = true := by simp [isNegative, hlist]
    rw [unsigned, hnegative, if_pos rfl, hlist, List.tail_cons]
    have hminus := Relaid.spelled_minus (t := { dialect := d }) hd hspelled
    rw [Target.unaryText, String.toList_ofList, hsign] at hminus
    exact ⟨hminus, htokens⟩

section Reading

variable {F : Lapses} {d : Dialect} {deeper : Deeper} {operand : Parser Expr}
  {ts us vs : List Shape} {s : Shape} {e : Expr} {u : DateField} {cs : List Char}

/-- A minus is read before what binds as tightly. -/
theorem operandWith_minus (h : ReadsOr F d (deeper.expr .unary) ts e us) :
    ReadsOr F d (Parser.operandWith deeper operand) ((.operator, "-") :: ts) (.unary .minus e) us := by
  refine ReadsOr.no (ReadsOr.eatWord_no rfl) (.peek fun t ht => ?_)
  obtain ⟨hkind, htext⟩ := shape_eq ht
  have hunary : Parser.unaryOp? t = some .minus := by simp [Parser.unaryOp?, hkind, htext]
  simp only [hunary]
  exact .advance fun _ _ => h.bind (.pure _)

theorem operandWith_signed (hF : F.Limited) (negative : Bool) (w : String) {n : Nat}
    (hrest : nextPrecedence d us ≤ .unary) :
    ReadsOr F d (Parser.operandWith (Parser.nested (n + 1)) operand)
      (signTokens negative ++ (.number, w) :: us) (signedNumber negative w) us := by
  cases negative with
  | false => exact operandWith_primary rfl rfl (primary_number w _ _)
  | true => exact operandWith_minus (expr_number hF w hrest n)

/-- No operand is a point. -/
theorem operandWith_point : Refuses d (Parser.operandWith deeper operand) (.mark "." :: us) := by
  refine .of_reads (a := .literal .null) fun _ => operandWith_primary rfl rfl (.peek fun t ht => ?_)
  obtain ⟨hkind, htext⟩ := shape_eq ht
  rw [hkind, htext]
  exact Refuses.noted.reads

/-- A sign does not make one of it. -/
theorem operandWith_signedPoint (negative : Bool) {n : Nat} :
    Refuses d (Parser.operandWith (Parser.nested (n + 1)) operand)
      (signTokens negative ++ .mark "." :: us) := by
  cases negative with
  | false => exact operandWith_point
  | true =>
    have hinner : Refuses d ((Parser.nested (n + 1)).expr .unary) (.mark "." :: us) :=
      .level (.before (.of_reads (a := .literal .null) fun _ => .remaining operandWith_point.reads))
    exact .of_reads fun _ => operandWith_minus (e := .literal .null) hinner.reads

/-- A number or a point joins nothing to an operand. -/
theorem nextPrecedence_numeral (hs : s.isNumeral) (p : Precedence) :
    nextPrecedence d (s :: us) ≤ p := by
  have hnone : nextConnective d (s :: us) = none := by
    rcases hs with hs | rfl
    · simp [nextConnective, Parser.connective?, Token.isBareWord, Shape.token, hs]
    · rfl
  simp [nextPrecedence, hnone]

/-- Neither a number nor a point is a part of a date. -/
theorem dateField_numeral (hs : s.isNumeral) : Refuses d Parser.dateField (s :: us) := by
  refine .of_reads (a := .day) fun _ => .peek fun t ht => ?_
  have hbare : t.isBareWord = false := by
    obtain ⟨hkind, -⟩ := shape_eq ht
    rcases hs with hs | rfl
    · simp [Token.isBareWord, hkind, hs]
    · simp [Token.isBareWord, hkind, Shape.mark]
  simp only [hbare, Bool.false_eq_true, if_false]
  exact Refuses.noted.reads

theorem operandFrom_interval (hstyle : d.writing.interval = some .bare)
    (hamount : ∀ operand, ReadsOr F d (Parser.operandWith deeper operand) ts e vs)
    (hfield : ReadsOr F d Parser.dateField vs u us) :
    ReadsOr F d (Parser.operandFrom deeper) (d.bare "INTERVAL" :: ts) (.interval e (some u)) us :=
  .remaining (reads_interval hstyle (hamount (Parser.operandUpTo deeper ts.length)) hfield)

/-- The tokens of a decimal number make an interval. The number behind a minus takes a level of its own. -/
theorem expr_decimal (hd : d.Readable) (hstyle : d.writing.interval = some .bare)
    (h : AmountTokens cs ts) (hdecimal : Lexer.isDecimal cs = true) (negative : Bool) (u : DateField) :
    ReadsWith 2 d Parser.expr (d.bare "INTERVAL" :: (signTokens negative ++ ts ++ [d.bare u.keyword]))
      (.interval (signedNumber negative (.ofList cs)) (some u)) [] := by
  have hnext : nextPrecedence d [d.bare u.keyword] ≤ .unary := by
    have hother : nextConnective d [d.bare u.keyword] = none :=
      nextConnective_other hd (by cases u <;> decide +kernel) (by cases u <;> decide +kernel) []
    simp [nextPrecedence, hother]
  cases h with
  | number =>
    rw [List.append_assoc]
    refine ReadsWith.level (n := 1) (subexpr_alone (operandFrom_interval hstyle (fun _ => ?_) (reads_field u)))
    exact operandWith_signed (Lapses.limited_short 0) negative _ hnext
  | point hno | numbers hno => cases hno.symm.trans hdecimal

/-- The tokens of any other amount make nothing. -/
theorem expr_undecimal (hstyle : d.writing.interval = some .bare) (h : AmountTokens cs ts)
    (hdecimal : Lexer.isDecimal cs = false) (negative : Bool) (u : DateField) :
    Refuses d Parser.expr (d.bare "INTERVAL" :: (signTokens negative ++ ts ++ [d.bare u.keyword])) := by
  rw [List.append_assoc]
  cases h with
  | number hyes => cases hyes.symm.trans hdecimal
  | point =>
    exact .level (.before (.of_reads (a := .interval (.literal .null) (some .day)) fun _ =>
      operandFrom_interval hstyle (fun _ => (operandWith_signedPoint negative).reads) (reads_field .day)))
  | @numbers w _ _ _ hs =>
    exact .level (.before (.of_reads (a := .interval (signedNumber negative w) (some .day)) fun _ =>
      operandFrom_interval hstyle
        (fun _ => operandWith_signed (fun _ _ _ _ => trivial) negative w (nextPrecedence_numeral hs .unary))
        (dateField_numeral hs).reads))

end Reading

/-! ## The text of an interval -/

/-- The amount and the unit in the string `s` make the text of an interval. -/
def MakesInterval (s text : String) : Prop :=
  ∃ amount u, splitInterval? s = some (amount, u) ∧ text = s!"INTERVAL {amount} {u.keyword}"

/-- Where the amounts of intervals are bare, a string that is written is an amount and a unit. -/
theorem intervalText_renders {t : Target} (hstyle : t.dialect.writing.interval = some .bare)
    (s : String) :
    Renders false t (Expr.interval (.literal (.string s)) none).text (MakesInterval s) := by
  have hinterval (p : Render (List String)) :
      Renders false t (Render.interval (.literal (.string s)) none p) (MakesInterval s) := by
    refine .target ?_
    simp only [hstyle]
    cases hsplit : splitInterval? s with
    | none => exact .unsupported rfl
    | some split => exact .pure ⟨split.1, split.2, hsplit, rfl⟩
  refine Renders.bind (P := fun texts => ∃ text, texts = [text] ∧ MakesInterval s text)
    (.bind (hinterval _) fun text h => .pure ⟨text, rfl, h⟩) ?_
  rintro _ ⟨text, rfl, h⟩
  exact .target (.pure h)

/-- Where the amounts of intervals are bare, the text of an interval in a string is written from its
amount and its unit. It is read back as an interval of that number, or of the minus of it, if the amount
has a digit and at most one point behind its sign, and refused otherwise. -/
theorem intervalText_survives_iff {d : Dialect} (hd : d ∈ Dialect.builtins)
    (hstyle : d.writing.interval = some .bare) {layout : Layout} {s text : String}
    (htext : renderExpr d layout (.interval (.literal (.string s)) none) = .ok text) :
    ∃ amount u tokens finish, splitInterval? s = some (amount, u) ∧
      text = s!"INTERVAL {amount} {u.keyword}" ∧
      tokenize d.lexical text = .ok (tokens, finish) ∧
      if Lexer.isDecimal (unsigned amount) then
        ∃ c, Parser.expr (.ofTokens d tokens finish) {} =
          (.ok (.interval (amountExpr amount) (some u)), c) ∧ tokens.length ≤ c.index
      else ∃ f c, Parser.expr (.ofTokens d tokens finish) {} = (.error f, c) := by
  have htidy := tidy_of_mem_builtins hd
  obtain ⟨amount, u, hsplit, rfl⟩ :=
    (intervalText_renders (t := { dialect := d, layout }) hstyle s).run htext
  obtain ⟨ts, hamount, htokens⟩ := splitInterval_spelled htidy hsplit
  have hspelled : Spelled d s!"INTERVAL {amount} {u.keyword}" (d.bare "INTERVAL" ::
      (signTokens (isNegative amount) ++ ts ++ [d.bare u.keyword])) :=
    have hwords : Spelled d ("INTERVAL" ++ " " ++ amount ++ " " ++ u.keyword) _ :=
      ((Spelled.word htidy.toLegible (by decide +kernel)).join Spelled.blank_mem hamount).join
        Spelled.blank_mem (Spelled.word htidy.toLegible (by cases u <;> decide +kernel))
    hwords.of_eq (by simp)
  obtain ⟨tokens, finish, hlex, hat⟩ := hspelled.tokenize
  refine ⟨amount, u, tokens, finish, hsplit, rfl, hlex, ?_⟩
  split
  · next hdecimal =>
    obtain ⟨c, hok, hend⟩ :=
      (expr_decimal (readable_of_mem_builtins hd) hstyle htokens hdecimal _ u).run hat (by decide)
    refine ⟨c, hok, ?_⟩
    simpa [Input.ofTokens, Nat.sub_eq_zero_iff_le] using hend.length
  · next hdecimal =>
    exact expr_undecimal hstyle htokens (Bool.eq_false_iff.mpr hdecimal) _ u _ _ hat

/-- A negative amount with a point. -/
theorem intervalText_survives_iff_days :
    ∃ amount u tokens finish, splitInterval? " -1.5  days" = some (amount, u) ∧
      "INTERVAL -1.5 DAY" = s!"INTERVAL {amount} {u.keyword}" ∧
      tokenize Dialect.mysql.lexical "INTERVAL -1.5 DAY" = .ok (tokens, finish) ∧
      if Lexer.isDecimal (unsigned amount) then
        ∃ c, Parser.expr (.ofTokens .mysql tokens finish) {} =
          (.ok (.interval (amountExpr amount) (some u)), c) ∧ tokens.length ≤ c.index
      else ∃ f c, Parser.expr (.ofTokens .mysql tokens finish) {} = (.error f, c) :=
  @intervalText_survives_iff .mysql (by decide +kernel) (by decide +kernel) {} " -1.5  days" _
    (by decide +kernel)

end SqlDialects
