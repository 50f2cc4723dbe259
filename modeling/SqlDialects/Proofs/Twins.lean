import SqlDialects.Proofs.Agreement
import SqlDialects.Proofs.Runs

/-!
# Texts with the same tokens

* `Shape.Requoted` : a token that is written again, with the quotes of names added or not;
* `Twins`, `Twin`, `Lead` : two texts with the same tokens up to such quotes, before given characters,
  before every end of a token, or before anything;
* `Twin.list`, `Relaid.block`, `Relaid.listClause`, `Relaid.clauses`, ... : what the layout makes of twins;
* `Dialect.Tidy` : what is asked of the texts of a dialect;
* `Twin.phrase`, `Relaid.name`, `Relaid.path`, `Relaid.columns`, ... : texts that two layouts write.
-/

namespace SqlDialects

open Text

/-! ## Tokens -/

/-- The tokens `s` and `u` are the same, or, if `turned` holds, a bare name and the same name in
quotes. -/
def Shape.Requoted (turned : Bool) (s u : Shape) : Prop :=
  s = u ∨ (turned = true ∧ s.1 = .word ∧ u = (.quotedName, s.2))

theorem Shape.Requoted.refl (turned : Bool) (s : Shape) : s.Requoted turned s := .inl rfl

/-- Tokens that are the same up to the quotes of names. -/
abbrev Requoted (turned : Bool) : List Shape → List Shape → Prop :=
  List.Forall₂ (Shape.Requoted turned)

theorem Requoted.refl (turned : Bool) (ts : List Shape) : Requoted turned ts ts :=
  List.forall₂_same.mpr fun s _ => .refl turned s

theorem Requoted.append {turned : Bool} {ts us ts' us' : List Shape} (h : Requoted turned ts us)
    (h' : Requoted turned ts' us') : Requoted turned (ts ++ ts') (us ++ us') :=
  List.rel_append h h'

/-- Without a change of the quotes the tokens are the same. -/
theorem Requoted.eq {ts us : List Shape} (h : Requoted false ts us) : ts = us := by
  induction h with
  | nil => rfl
  | cons h _ ih =>
    rcases h with rfl | ⟨hno, -⟩
    · rw [ih]
    · cases hno

/-! ## Texts -/

/-- The texts `a` and `b` have the same tokens up to the quotes of names, before every character that
`ends` admits. -/
def Twins (d : Dialect) (turned : Bool) (ends : Option Char → Prop) (a b : String) : Prop :=
  ∃ ts us, (∀ h, ends h → Spells d h a.toList ts) ∧ (∀ h, ends h → Spells d h b.toList us) ∧
    Requoted turned ts us

/-- Two texts with the same tokens before every end of a token. -/
abbrev Twin (d : Dialect) (turned : Bool) : String → String → Prop := Twins d turned (· ∈ closers)

/-- Two texts with the same tokens whatever follows. -/
abbrev Lead (d : Dialect) (turned : Bool) : String → String → Prop := Twins d turned fun _ => True

/-- Twins that are empty or start with what may follow a token. -/
structure Tail (d : Dialect) (turned : Bool) (a b : String) : Prop where
  twin : Twin d turned a b
  left : a.toList.head? ∈ closers
  right : b.toList.head? ∈ closers

section Texts

variable {d : Dialect} {turned : Bool} {ends ends' : Option Char → Prop} {a b a' b' : String}

theorem Twins.of_spells {ts : List Shape} (h : ∀ b, ends b → Spells d b a.toList ts) :
    Twins d turned ends a a :=
  ⟨ts, ts, h, h, .refl turned ts⟩

theorem Twin.of_spelled {ts us : List Shape} (ha : Spelled d a ts) (hb : Spelled d b us)
    (h : Requoted turned ts us) : Twin d turned a b :=
  ⟨ts, us, ha, hb, h⟩

theorem Twins.append (h : Twins d turned ends a b) (h' : Twins d turned ends' a' b')
    (hleft : ∀ x, ends' x → ends (a'.toList.head?.or x))
    (hright : ∀ x, ends' x → ends (b'.toList.head?.or x)) :
    Twins d turned ends' (a ++ a') (b ++ b') := by
  obtain ⟨ts, us, ha, hb, hrel⟩ := h
  obtain ⟨ts', us', ha', hb', hrel'⟩ := h'
  refine ⟨ts ++ ts', us ++ us', fun x hx => ?_, fun x hx => ?_, hrel.append hrel'⟩
  · rw [String.toList_append]
    exact .append (ha _ (hleft x hx)) (ha' x hx)
  · rw [String.toList_append]
    exact .append (hb _ (hright x hx)) (hb' x hx)

/-- Anything may follow a lead. -/
theorem Twins.then (h : Lead d turned a b) (h' : Twins d turned ends a' b') :
    Twins d turned ends (a ++ a') (b ++ b') :=
  h.append h' (fun _ _ => trivial) fun _ _ => trivial

theorem mem_closers_or {cs : List Char} (hcs : cs.head? ∈ closers) {x : Option Char}
    (hx : cs = [] → x ∈ closers) : cs.head?.or x ∈ closers := by
  cases cs with
  | nil => simpa using hx rfl
  | cons c cs => simpa using hcs

theorem Twins.tail (h : Twin d turned a b) (h' : Tail d turned a' b') :
    Twin d turned (a ++ a') (b ++ b') :=
  h.append h'.twin (fun _ hx => mem_closers_or h'.left fun _ => hx)
    fun _ hx => mem_closers_or h'.right fun _ => hx

theorem Tail.append (h : Tail d turned a b) (h' : Tail d turned a' b') :
    Tail d turned (a ++ a') (b ++ b') := by
  refine ⟨h.twin.tail h', ?_, ?_⟩
  · rw [String.toList_append, List.head?_append]
    exact mem_closers_or h.left fun _ => h'.left
  · rw [String.toList_append, List.head?_append]
    exact mem_closers_or h.right fun _ => h'.right

theorem Twins.twin (h : Lead d turned a b) : Twin d turned a b := by
  obtain ⟨ts, us, ha, hb, hrel⟩ := h
  exact ⟨ts, us, fun x _ => ha x trivial, fun x _ => hb x trivial, hrel⟩

theorem Lead.empty : Lead d turned "" "" := .of_spells fun _ _ => .nil

theorem Tail.empty : Tail d turned "" "" := ⟨Lead.empty.twin, by decide, by decide⟩

end Texts

/-! ## Dialects -/

/-- Whether a text has letters, digits, blanks, commas and parentheses only. -/
def isTemplate (cs : List Char) : Bool :=
  (cs.splitOn ' ').all fun run =>
    run.all fun c => c.isAlpha || c.isDigit || ['_', ',', '(', ')'].contains c

/-- Whether a text is a template behind whose last character anything may follow. -/
def isOpenTemplate (cs : List Char) : Bool :=
  match cs.getLast? with
  | some c => [' ', ',', '('].contains c && isTemplate cs.dropLast
  | none => true

/-- The name of a function as it is written. -/
def FunctionSpelling.name? : FunctionSpelling → Option String
  | .rename name | .swap name => some name
  | .position => none

/-- Whether a text has the same tokens before every end of a token. -/
def Dialect.isPhrase (d : Dialect) (s : String) : Bool :=
  isTemplate s.toList || Lexer.isTame d.lexical s.toList

/-- The texts that some dialects write as they are, and others do not have. -/
def WritingRules.phrases (w : WritingRules) : List String :=
  w.currentDate.toList ++ w.currentTime.toList ++ w.dummyTable.toList ++ w.maxLimit.toList ++
    w.ifFunction.toList ++ w.safeCast.toList

/-- What is asked of a dialect so that its texts have the same tokens in every layout. -/
structure Dialect.Tidy (d : Dialect) : Prop extends d.Legible where
  parted : d.lexical.Parted
  keywords : ∀ s ∈ [d.writing.currentTimestamp, d.writing.exceptKeyword, d.writing.orReplace],
    s ∈ ["CURRENT_TIMESTAMP", "GETDATE()", "EXCEPT", "MINUS", "REPLACE", "ALTER"]
  phrases : ∀ s ∈ d.writing.phrases, d.isPhrase s = true
  marks : ∀ s ∈ ["*", ".*", "?", "+", "="], d.isPhrase s = true
  symbols : ∀ rule ∈ d.reading.operators, d.isPhrase rule.symbol = true
  types : ∀ entry ∈ d.writing.typeNames, d.isPhrase entry.2 = true
  functions : ∀ entry ∈ d.writing.functionNames, ∀ name ∈ entry.2.name?, d.isPhrase name = true
  /-- A sign is an operator, and no longer operator starts with one. -/
  signs : ∀ c ∈ ['-', '+', '~'], d.lexical.isMark c = true ∧
    d.lexical.operators.find? (fun op => op.toList.head? == some c) = some (String.ofList [c]) ∧
    ∀ op ∈ d.lexical.operators, op.toList.head? = some c → op = String.ofList [c]
  named : d.writing.namedParamMark.all ['$', '@', ':', '?'].contains = true

/-! ## Fixed texts -/

theorem Text.isAlphabetic_of_isAlpha {c : Char} (hc : c.isAlpha = true) : isAlphabetic c = true := by
  have hle : c.val ≤ 122 := by
    simp only [Char.isAlpha, Char.isUpper, Char.isLower, Bool.or_eq_true, Bool.and_eq_true,
      decide_eq_true_eq] at hc
    rcases hc with ⟨-, hc⟩ | ⟨-, hc⟩
    · exact UInt32.le_trans hc (by decide)
    · exact hc
  rwa [isAlphabetic_of_isAscii (Spelled.isAscii_of_le (UInt32.le_trans hle (by decide)))]

/-- Letters, digits, commas and parentheses open nothing. -/
theorem Lexer.isTame_of_isTemplate {r : LexicalRules} (hr : r.Plain) {cs : List Char}
    (h : isTemplate cs = true) : isTame r cs = true := by
  rw [isTemplate, List.all_eq_true] at h
  rw [isTame, List.all_eq_true]
  intro run hrun
  have hchars := h run hrun
  clear hrun h
  induction run with
  | nil => rfl
  | cons c run ih =>
    rw [List.all_cons, Bool.and_eq_true] at hchars
    rw [isRun, ih hchars.2, Bool.and_true, Bool.not_eq_true']
    have hc := hchars.1
    simp only [Bool.or_eq_true, List.contains_eq_mem, List.mem_cons, List.not_mem_nil, or_false,
      decide_eq_true_eq] at hc
    rcases hc with (hc | hc) | rfl | hc
    · exact opens_of_startsWord hr (by simp [startsWord, isAlphabetic_of_isAlpha hc])
    · exact opens_of_number hr (List.mem_cons_of_mem _ (mem_digits_of_isDigit hc))
    · exact opens_of_startsWord hr (by simp [startsWord])
    · refine opens_of_punctuation hr ?_
      rcases hc with rfl | rfl | rfl <;> decide

/-- Whether a text is an open template whose first character may follow a token. -/
def isJoint (s : String) : Bool :=
  isOpenTemplate s.toList && s.toList.head?.any fun c => [' ', ',', ')'].contains c

/-- Whether a text is a template and may follow a token. -/
def isTailText (s : String) : Bool := isTemplate s.toList && closers.contains s.toList.head?

section Fixed

variable {d : Dialect} {turned : Bool} {a b : String}

theorem spells_phrase (hd : d.Tidy) {s : String} (hs : d.isPhrase s = true) :
    ∃ ts, ∀ h ∈ runEnds, Spells d h s.toList ts := by
  refine spells_tame hd.toLegible hd.parted ?_
  rw [Dialect.isPhrase, Bool.or_eq_true] at hs
  exact hs.elim (Lexer.isTame_of_isTemplate hd.plain) id

theorem Twin.phrase (hd : d.Tidy) {s : String} (hs : d.isPhrase s = true) : Twin d turned s s := by
  obtain ⟨ts, hts⟩ := spells_phrase hd hs
  exact .of_spells fun h hh => hts h (mem_runEnds_of_closers hh)

theorem Twin.text (hd : d.Tidy) (s : String) (hs : isTemplate s.toList = true) :
    Twin d turned s s :=
  .phrase hd (by rw [Dialect.isPhrase, hs, Bool.true_or])

theorem spells_open (hd : d.Tidy) {c : Char} (hc : c ∈ [' ', ',', '(', ')']) :
    ∃ ts, ∀ h, Spells d h [c] ts := by
  rcases List.mem_cons.mp hc with rfl | hc
  · exact ⟨[], fun _ => .blank (.inl rfl) .nil⟩
  · have hpunct : c ∈ ['(', ')', ',', ';'] := by
      simp only [List.mem_cons, List.not_mem_nil, or_false] at hc
      rcases hc with rfl | rfl | rfl <;> decide
    exact ⟨[_], fun _ => .single (isToken_punctuation hd.toLegible hpunct)⟩

/-- A text before a character that ends tokens, and this character. -/
theorem Lead.of_spells (hd : d.Tidy) {s : String} {ts : List Shape} {c : Char}
    (hc : c ∈ [' ', ',', '(', ')']) (hs : Spells d (some c) s.toList ts) :
    Lead d turned (s ++ String.ofList [c]) (s ++ String.ofList [c]) := by
  obtain ⟨us, hus⟩ := spells_open hd hc
  have hspells (h : Option Char) : Spells d h (s ++ String.ofList [c]).toList (ts ++ us) := by
    rw [String.toList_append, String.toList_ofList]
    exact .append hs (hus h)
  exact Twins.of_spells fun h _ => hspells h

theorem Lead.text (hd : d.Tidy) (s : String) (hs : isOpenTemplate s.toList = true) :
    Lead d turned s s := by
  unfold isOpenTemplate at hs
  split at hs
  · next c hlast =>
    rw [Bool.and_eq_true] at hs
    obtain ⟨hc, htemplate⟩ := hs
    obtain ⟨ts, hts⟩ := spells_tame hd.toLegible hd.parted
      (Lexer.isTame_of_isTemplate hd.plain htemplate)
    have hmem : c ∈ [' ', ',', '('] := by simpa using hc
    have hsplit : s = String.ofList s.toList.dropLast ++ String.ofList [c] := by
      rw [← String.ofList_append, List.dropLast_append_getLast? c hlast, String.ofList_toList]
    rw [hsplit]
    have hspells : Spells d (some c) (String.ofList s.toList.dropLast).toList ts := by
      rw [String.toList_ofList]
      refine hts _ ?_
      simp only [List.mem_cons, List.not_mem_nil, or_false] at hmem
      rcases hmem with rfl | rfl | rfl <;> decide
    refine .of_spells hd ?_ hspells
    simp only [List.mem_cons, List.not_mem_nil, or_false] at hmem
    rcases hmem with rfl | rfl | rfl <;> decide
  · next hlast =>
    obtain rfl : s = "" := by simpa using hlast
    exact .empty

/-- A name that is called and the parenthesis behind it. -/
theorem Lead.called (hd : d.Tidy) {s : String} (hs : d.isPhrase s = true) :
    Lead d turned (s ++ "(") (s ++ "(") := by
  obtain ⟨ts, hts⟩ := spells_phrase hd hs
  exact .of_spells hd (c := '(') (by decide) (hts _ (by decide))

theorem Tail.text (hd : d.Tidy) (s : String) (hs : isTailText s = true) :
    Tail d turned s s := by
  rw [isTailText, Bool.and_eq_true] at hs
  have hhead : s.toList.head? ∈ closers := by simpa using hs.2
  exact ⟨.text hd s hs.1, hhead, hhead⟩

theorem closers_of_isJoint {s : String} (hs : isJoint s = true) (x : Option Char) :
    s.toList.head?.or x ∈ closers := by
  rw [isJoint, Bool.and_eq_true] at hs
  cases hlist : s.toList with
  | nil => simp [hlist] at hs
  | cons c cs =>
    have hc : c = ' ' ∨ c = ',' ∨ c = ')' := by simpa [hlist] using hs.2
    rw [List.head?_cons, Option.some_or]
    rcases hc with rfl | rfl | rfl <;> decide

theorem Lead.joint (hd : d.Tidy) {s : String} (hs : isJoint s = true) : Lead d turned s s := by
  rw [isJoint, Bool.and_eq_true] at hs
  exact .text hd s hs.1

/-- A text between twins and what follows them. -/
theorem Twins.lead (h : Twin d turned a b) (hd : d.Tidy) (s : String)
    (hs : isJoint s = true) : Lead d turned (a ++ s) (b ++ s) :=
  h.append (Lead.joint hd hs) (fun x _ => closers_of_isJoint hs x) fun x _ => closers_of_isJoint hs x

/-- A text that may follow a token, before twins. -/
theorem Twins.behind (h : Twin d turned a b) (hd : d.Tidy) (s : String)
    (hs : isJoint s = true) : Tail d turned (s ++ a) (s ++ b) := by
  have hhead (r : String) : (s ++ r).toList.head? ∈ closers := by
    rw [String.toList_append, List.head?_append]
    exact closers_of_isJoint hs _
  exact ⟨(Lead.joint hd hs).then h, hhead a, hhead b⟩

theorem Twins.close (h : Twin d turned a b) (hd : d.Tidy) : Twin d turned (a ++ ")") (b ++ ")") :=
  h.tail (.text hd ")" rfl)

theorem Twins.parens (h : Twin d turned a b) (hd : d.Tidy) :
    Twin d turned ("(" ++ a ++ ")") ("(" ++ b ++ ")") :=
  ((Lead.text hd "(" rfl).then h).close hd

end Fixed

/-! ## Lists -/

theorem Requoted.flatten {turned : Bool} {tss uss : List (List Shape)}
    (h : List.Forall₂ (Requoted turned) tss uss) : Requoted turned tss.flatten uss.flatten :=
  List.rel_flatten h

theorem Requoted.betweenCommas {turned : Bool} {tss uss : List (List Shape)}
    (h : List.Forall₂ (Requoted turned) tss uss) :
    Requoted turned (betweenCommas tss) (betweenCommas uss) := by
  have hbehind {tss uss : List (List Shape)} (h : List.Forall₂ (Requoted turned) tss uss) :
      Requoted turned (behindCommas tss) (behindCommas uss) := by
    induction h with
    | nil => exact .nil
    | cons hts _ ih => exact .cons (.refl turned _) (hts.append ih)
  cases h with
  | nil => exact .nil
  | cons hts hrest => exact hts.append (hbehind hrest)

section Lists

variable {d : Dialect} {turned : Bool} {as bs : List String}

/-- The tokens of twins, one by one. -/
theorem Twins.tokens (h : List.Forall₂ (Twin d turned) as bs) : ∃ tss uss,
    List.Forall₂ (Spelled d) as tss ∧ List.Forall₂ (Spelled d) bs uss ∧
      List.Forall₂ (Requoted turned) tss uss := by
  induction h with
  | nil => exact ⟨[], [], .nil, .nil, .nil⟩
  | cons hab _ ih =>
    obtain ⟨ts, us, ha, hb, hrel⟩ := hab
    obtain ⟨tss, uss, has, hbs, hrels⟩ := ih
    exact ⟨ts :: tss, us :: uss, .cons ha has, .cons hb hbs, .cons hrel hrels⟩

theorem Twin.listOf (hd : d.Tidy) {gap gap' : String} (hgap : gap ∈ Spelled.listGaps)
    (hgap' : gap' ∈ Spelled.listGaps) (h : List.Forall₂ (Twin d turned) as bs) :
    Twin d turned (String.intercalate gap as) (String.intercalate gap' bs) := by
  obtain ⟨tss, uss, has, hbs, hrel⟩ := Twins.tokens h
  exact .of_spelled (.commaList hd.toLegible hgap has) (.commaList hd.toLegible hgap' hbs)
    (.betweenCommas hrel)

/-- Elements with commas between them, on one line. -/
theorem Twin.list (hd : d.Tidy) (h : List.Forall₂ (Twin d turned) as bs) :
    Twin d turned (String.intercalate ", " as) (String.intercalate ", " bs) :=
  .listOf hd (by decide) (by decide) h

/-- Texts with a text between them that may follow a token. -/
theorem Twin.joined (hd : d.Tidy) {gap : String} (hgap : isJoint gap = true)
    (h : List.Forall₂ (Twin d turned) as bs) :
    Twin d turned (String.intercalate gap as) (String.intercalate gap bs) := by
  induction h with
  | nil => exact Lead.empty.twin
  | cons hab hrest ih =>
    cases hrest with
    | nil => simpa using hab
    | cons =>
      rw [String.intercalate_cons_cons, String.intercalate_cons_cons]
      exact (hab.lead hd gap hgap).then ih

theorem Twin.gapsOf {gap gap' : String} (hgap : gap ∈ Spelled.gaps) (hgap' : gap' ∈ Spelled.gaps)
    (h : List.Forall₂ (Twin d turned) as bs) :
    Twin d turned (String.intercalate gap as) (String.intercalate gap' bs) := by
  obtain ⟨tss, uss, has, hbs, hrel⟩ := Twins.tokens h
  exact .of_spelled (.gapList hgap has) (.gapList hgap' hbs) (.flatten hrel)

/-- Texts with blanks between them. -/
theorem Twin.words (h : List.Forall₂ (Twin d turned) as bs) :
    Twin d turned (String.intercalate " " as) (String.intercalate " " bs) :=
  .gapsOf Spelled.blank_mem Spelled.blank_mem h

theorem Twins.singleton {a b : String} (h : Twin d turned a b) :
    List.Forall₂ (Twin d turned) [a] [b] :=
  .cons h .nil

end Lists

/-! ## Layout -/

/-- The layout `l` differs from that of `t` in lines and indentation, and in quotes of names only if
`turned` holds. -/
structure Relaid (t : Target) (l : Layout) (turned : Bool) : Prop where
  tidy : t.dialect.Tidy
  bare : ∀ k, t.bare k = "?"
  identify : l.identify = (t.layout.identify || turned)

namespace Relaid

variable {t : Target} {l : Layout} {turned : Bool} {a b : String} {as bs : List String}

theorem block (hx : Relaid t l turned) (h : Twin t.dialect turned a b) :
    Twin t.dialect turned (t.block a) ((t.laid l).block b) := by
  obtain ⟨ts, us, ha, hb, hrel⟩ := h
  refine .of_spelled (Spelled.block hx.tidy.toLegible rfl ha)
    (Spelled.block (t := t.laid l) hx.tidy.toLegible rfl hb) ?_
  exact .cons (.refl turned _) (hrel.append (.refl turned _))

theorem listClause (hx : Relaid t l turned) (hkey : Twin t.dialect turned a b)
    (h : List.Forall₂ (Twin t.dialect turned) as bs) :
    Twin t.dialect turned (t.listClause a as) ((t.laid l).listClause b bs) := by
  obtain ⟨ts, us, ha, hb, hrel⟩ := hkey
  obtain ⟨tss, uss, has, hbs, hrels⟩ := Twins.tokens h
  exact .of_spelled (Spelled.listClause hx.tidy.toLegible rfl ha has)
    (Spelled.listClause (t := t.laid l) hx.tidy.toLegible rfl hb hbs)
    (hrel.append (.betweenCommas hrels))

theorem clauses (h : List.Forall₂ (Twin t.dialect turned) as bs) :
    Twin t.dialect turned (t.clauses as) ((t.laid l).clauses bs) := by
  obtain ⟨tss, uss, has, hbs, hrel⟩ := Twins.tokens h
  exact .of_spelled (Spelled.clauses t has) (Spelled.clauses (t.laid l) hbs) (.flatten hrel)

/-- Elements with commas between them, on one line or on several. -/
theorem elements (hx : Relaid t l turned) (h : List.Forall₂ (Twin t.dialect turned) as bs) :
    Twin t.dialect turned (String.intercalate t.comma as) (String.intercalate (t.laid l).comma bs) :=
  .listOf hx.tidy (Spelled.comma_mem t) (Spelled.comma_mem (t.laid l)) h

theorem separator (h : Twin t.dialect turned a b) :
    Tail t.dialect turned (t.separator ++ a) ((t.laid l).separator ++ b) := by
  obtain ⟨ts, us, ha, hb, hrel⟩ := h
  have hhead {gap : String} (hgap : gap ∈ Spelled.gaps) (s : String) :
      (gap ++ s).toList.head? ∈ closers := by
    rcases Spelled.mem_gaps.mp hgap with rfl | rfl <;> simp [closers]
  have htwin : Twin t.dialect turned (t.separator ++ a) ((t.laid l).separator ++ b) :=
    .of_spelled (Spelled.behindGap (Spelled.separator_mem t) ha)
      (Spelled.behindGap (Spelled.separator_mem (t.laid l)) hb) hrel
  exact ⟨htwin, hhead (Spelled.separator_mem t) a, hhead (Spelled.separator_mem (t.laid l)) b⟩

/-! ### Names -/

theorem requoted (hx : Relaid t l turned) (n : Name) :
    Shape.Requoted turned (t.reread n).shape ((t.laid l).reread n).shape := by
  have hneeds : (t.laid l).needsQuotes n.text = t.needsQuotes n.text := rfl
  have hlayout : (t.laid l).layout = l := rfl
  unfold Target.reread Name.shape
  rw [hneeds, hlayout, hx.identify]
  cases turned with
  | false => exact .inl (by simp)
  | true =>
    cases hquoted : n.quoted || t.layout.identify || t.needsQuotes n.text with
    | true => exact .inl (by simp)
    | false => exact .inr ⟨rfl, by simp⟩

theorem name (hx : Relaid t l turned) (n : Name) :
    Twin t.dialect turned (t.name n) ((t.laid l).name n) :=
  .of_spelled (Spelled.name hx.tidy.toLegible rfl n)
    (Spelled.name (t := t.laid l) hx.tidy.toLegible rfl n) (.cons (hx.requoted n) .nil)

theorem names (hx : Relaid t l turned) (ns : List Name) :
    Twin t.dialect turned (t.names ns) ((t.laid l).names ns) := by
  refine .list hx.tidy ?_
  induction ns with
  | nil => exact .nil
  | cons n ns ih => exact .cons (hx.name n) ih

/-- A qualified name, also before a dot. -/
theorem dotted (hx : Relaid t l turned) (ns : List Name) :
    Twins t.dialect turned (· ∈ wordEnds) (t.path ns) ((t.laid l).path ns) := by
  refine ⟨_, _, fun h hh => Spelled.spells_path hx.tidy.toLegible rfl ns hh,
    fun h hh => Spelled.spells_path (t := t.laid l) hx.tidy.toLegible rfl ns hh, ?_⟩
  cases ns with
  | nil => exact .nil
  | cons n ns =>
    refine .cons (hx.requoted n) ?_
    induction ns with
    | nil => exact .nil
    | cons n ns ih => exact .cons (.refl turned _) (.cons (hx.requoted n) ih)

theorem path (hx : Relaid t l turned) (ns : List Name) :
    Twin t.dialect turned (t.path ns) ((t.laid l).path ns) := by
  obtain ⟨ts, us, ha, hb, hrel⟩ := hx.dotted ns
  exact ⟨ts, us, fun h hh => ha h (Spelled.closers_subset_wordEnds hh),
    fun h hh => hb h (Spelled.closers_subset_wordEnds hh), hrel⟩

theorem columns (hx : Relaid t l turned) (ns : List Name) :
    Tail t.dialect turned (t.columns ns) ((t.laid l).columns ns) := by
  unfold Target.columns
  split
  · exact .empty
  · have hlist := ((Lead.text hx.tidy " (" rfl).then (hx.names ns)).close hx.tidy
    refine ⟨hlist, ?_, ?_⟩ <;> simp [closers]

theorem aliasWord (t : Target) : isJoint t.aliasWord = true := by
  unfold Target.aliasWord
  split <;> decide

end Relaid

end SqlDialects
