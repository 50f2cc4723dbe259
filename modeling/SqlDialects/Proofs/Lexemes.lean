import SqlDialects.Dialect.Builtin
import SqlDialects.Render.Basic
import Mathlib

/-!
# The token at the head of a text

What `Lexer.lexeme` finds where a text starts with the spelling of one token, by the kind of the
token and the character behind it:

* `LexicalRules.Plain` : what is asked of the rules: no character starts two kinds of token;
* `lexeme_word`, `lexeme_number`, `lexeme_string`, `lexeme_quotedName`, `lexeme_operator`,
  `lexeme_punctuation`, `lexeme_dot` : one lemma for each kind;
* `lexeme_blank` : the blanks between tokens.
-/

namespace SqlDialects

open Text

/-! ## Characters -/

/-- White space belongs to no word. -/
theorem Text.isBlank_eq_false_of_isAlphabetic {c : Char} (h : isAlphabetic c = true) :
    isBlank c = false := by
  have hshort : ∀ r ∈ blankRanges, r.2 < r.1 + 12 ∧ (r.2 < 65 ∨ 122 < r.1) := by decide
  have hapart : ∀ r ∈ blankRanges, ∀ k < 12, r.1 + k ≤ r.2 →
      alphabeticRanges.covers (r.1 + k) = false := by
    decide +kernel
  by_contra hb
  rw [Bool.not_eq_false, isBlank, Ranges.covers_iff] at hb
  obtain ⟨r, hr, hlow, hhigh⟩ := hb
  obtain ⟨hwidth, hascii⟩ := hshort r hr
  unfold isAlphabetic at h
  split at h
  · simp only [Char.isAlpha, Char.isUpper, Char.isLower, Bool.or_eq_true, Bool.and_eq_true,
      decide_eq_true_eq] at h
    have hval : c.toNat = c.val.toNat := rfl
    rcases h with ⟨h₁, h₂⟩ | ⟨h₁, h₂⟩ <;>
    · have h₁ := UInt32.le_iff_toNat_le.mp h₁
      have h₂ := UInt32.le_iff_toNat_le.mp h₂
      simp at h₁ h₂
      omega
  · have := hapart r hr (c.toNat - r.1) (by omega) (by omega)
    rw [show r.1 + (c.toNat - r.1) = c.toNat by omega, h] at this
    cases this

theorem takeWhile_of_boundary {p : Char → Bool} {w rest : List Char}
    (hw : ∀ c ∈ w, p c = true) (hrest : ∀ c ∈ rest.head?, p c = false) :
    (w ++ rest).takeWhile p = w := by
  rw [List.takeWhile_append_of_pos hw]
  cases rest with
  | nil => simp
  | cons c rest => simp [hrest c rfl]

/-! ## Rules -/

namespace LexicalRules

/-- The ASCII digits. -/
def decimalDigits : List Char := ['0', '1', '2', '3', '4', '5', '6', '7', '8', '9']

/-- The characters that start a comment, a string, a quoted name, a parameter or a number. -/
def openers (r : LexicalRules) : List Char :=
  r.stringQuotes ++ r.nameQuotes.map Prod.fst ++ r.paramMarks ++
    (if r.hashComments then ['#'] else []) ++ ['$', '-', '/', '.'] ++ decimalDigits

/-- Whether `c` starts no blank, no comment to the end of the line, no quotation and no
parameter. -/
def isFree (r : LexicalRules) (c : Char) : Bool :=
  !isBlank c && !(r.hashComments && c == '#') && !r.stringQuotes.contains c &&
    (r.nameQuotes.find? fun q => q.1 == c).isNone && c != '$' && !r.paramMarks.contains c &&
    !(c == 'N' || c == 'n')

/-- Whether `c` starts no number and no word either. -/
def isMark (r : LexicalRules) (c : Char) : Bool :=
  r.isFree c && !c.isDigit && !Lexer.startsWord r c

/-- Whether quoted names may be written between the characters of `q`. -/
def quotesBy (r : LexicalRules) (q : Char × Char) : Bool :=
  !isBlank q.1 && !(r.hashComments && q.1 == '#') && q.1 != '-' && q.1 != '/' &&
    !(q.1 == 'N' || q.1 == 'n') && !r.stringQuotes.contains q.1 &&
    (r.nameQuotes.find? fun p => p.1 == q.1) == some q

/-- The characters that stand behind a token and end it. -/
def enders : List Char := [' ', '\n', ',', ')', '(', '.', '\'']

/-- Rules under which no character starts two kinds of token. -/
structure Plain (r : LexicalRules) : Prop where
  /-- What starts a word starts nothing else. -/
  starts : ∀ c ∈ r.openers, Lexer.startsWord r c = false
  wordStarts : ∀ c ∈ r.wordStarts, isBlank c = false
  ends : ∀ c ∈ enders, Lexer.continuesWord r c = false
  punctuation : ∀ c ∈ ['(', ')', ',', ';', '.'], r.isMark c = true
  /-- No operator starts with a punctuation mark. -/
  operators : ∀ op ∈ r.operators, ∀ c ∈ ['(', ')', ',', ';', '.'], op.toList.head? ≠ some c
  numbers : ∀ c ∈ '.' :: decimalDigits, r.isFree c = true
  strings : '\'' ∈ r.stringQuotes

/-- A statement about the characters of a list is decided on the list, not on all characters. -/
instance (priority := high) decidableAllChars (p : Char → Prop) [DecidablePred p] (cs : List Char) :
    Decidable (∀ c ∈ cs, p c) :=
  List.decidableBAll p cs

instance (r : LexicalRules) : Decidable r.Plain :=
  decidable_of_iff
    ((∀ c ∈ r.openers, Lexer.startsWord r c = false) ∧ (∀ c ∈ r.wordStarts, isBlank c = false) ∧
      (∀ c ∈ enders, Lexer.continuesWord r c = false) ∧
      (∀ c ∈ ['(', ')', ',', ';', '.'], r.isMark c = true) ∧
      (∀ op ∈ r.operators, ∀ c ∈ ['(', ')', ',', ';', '.'], op.toList.head? ≠ some c) ∧
      (∀ c ∈ '.' :: decimalDigits, r.isFree c = true) ∧ '\'' ∈ r.stringQuotes)
    ⟨fun ⟨h₁, h₂, h₃, h₄, h₅, h₆, h₇⟩ => ⟨h₁, h₂, h₃, h₄, h₅, h₆, h₇⟩,
      fun h => ⟨h.starts, h.wordStarts, h.ends, h.punctuation, h.operators, h.numbers, h.strings⟩⟩

theorem plain_of_mem_builtins : ∀ d ∈ Dialect.builtins, d.lexical.Plain := by decide +kernel

end LexicalRules

/-! ## Nothing else starts here -/

namespace Lexer

variable {r : LexicalRules} {c : Char} {cs : List Char}

theorem lexeme_blank (h : isBlank c = true) :
    lexeme r c cs = .ok ⟨.blank, (cs.takeWhile isBlank).length, none⟩ := by
  simp [lexeme, trivia, h]

theorem lineComment_eq_none (hhash : (r.hashComments && c == '#') = false)
    (hdash : ¬(c = '-' ∧ cs.head? = some '-')) : lineComment r c cs = none := by
  unfold lineComment
  rw [hhash]
  split
  · exact absurd ⟨rfl, rfl⟩ hdash
  · rfl

theorem trivia_eq_none (hb : isBlank c = false) (hhash : (r.hashComments && c == '#') = false)
    (hdash : ¬(c = '-' ∧ cs.head? = some '-')) (hstar : ¬(c = '/' ∧ cs.head? = some '*')) :
    trivia r c cs = .ok none := by
  unfold trivia
  rw [hb, lineComment_eq_none hhash hdash]
  simp only [Bool.false_eq_true, if_false]
  split
  · exact absurd ⟨rfl, rfl⟩ hstar
  · rfl

theorem quotation_eq_none (hn : ¬(r.nationalStrings && (c == 'N' || c == 'n') &&
      cs.head? == some '\'') = true) (hs : r.stringQuotes.contains c = false)
    (hq : (r.nameQuotes.find? fun q => q.1 == c).isNone = true) (hd : c ≠ '$') :
    quotation r c cs = none := by
  unfold quotation
  rw [if_neg hn, hs]
  cases h : r.nameQuotes.find? fun q => q.1 == c with
  | none => simp [hd]
  | some q => simp [h] at hq

theorem mem_digits_of_isDigit (h : c.isDigit = true) : c ∈ LexicalRules.decimalDigits := by
  simp only [Char.isDigit, Bool.and_eq_true, decide_eq_true_eq, ge_iff_le,
    UInt32.le_iff_toNat_le] at h
  have h48 : 48 ≤ c.toNat := h.1
  have h57 : c.toNat ≤ 57 := h.2
  rw [← Char.ofNat_toNat c]
  generalize c.toNat = n at h48 h57
  interval_cases n <;> decide

theorem number_eq_none (hdigit : c.isDigit = false) (hdot : c ≠ '.') : number (c :: cs) = none := by
  have h0 : digits (c :: cs) = 0 := by simp [digits, hdigit]
  have hm : mantissa (c :: cs) = none := by
    simp only [mantissa, h0, List.drop_zero]
    split
    · next heq => exact absurd (List.cons.inj heq).1 hdot
    · simp
  simp [number, hm]

/-! ## Words -/

variable {w rest : List Char}

/-- What a character that starts a word is not. -/
theorem not_mem_openers (hr : r.Plain) (hc : startsWord r c = true) : c ∉ r.openers := by
  intro h
  rw [hr.starts c h] at hc
  cases hc

theorem isBlank_of_startsWord (hr : r.Plain) (hc : startsWord r c = true) : isBlank c = false := by
  simp only [startsWord, Bool.or_eq_true] at hc
  rcases hc with (h | h) | h
  · exact isBlank_eq_false_of_isAlphabetic h
  · obtain rfl : c = '_' := by simpa using h
    decide
  · exact hr.wordStarts c (by simpa using h)

theorem lexeme_word (hr : r.Plain) (hc : startsWord r c = true)
    (hw : ∀ x ∈ w, continuesWord r x = true) (hb : ∀ x ∈ rest.head?, continuesWord r x = false)
    (hn : rest.head? ≠ some '\'') :
    lexeme r c (w ++ rest) =
      .ok ⟨if r.isReserved (.ofList (c :: w)) then .keyword else .word, w.length, none⟩ := by
  have hopen : c ∉ r.openers := not_mem_openers hr hc
  simp only [LexicalRules.openers, List.mem_append, not_or] at hopen
  obtain ⟨⟨⟨⟨⟨hstring, hname⟩, hparam⟩, hhash⟩, hrest⟩, hdigits⟩ := hopen
  have hother : ∀ x ∈ ['$', '-', '/', '.'], c ≠ x := fun x hx h => hrest (h ▸ hx)
  have htrivia : trivia r c (w ++ rest) = .ok none := by
    refine trivia_eq_none (isBlank_of_startsWord hr hc) ?_ ?_ ?_
    · cases h : r.hashComments with
      | false => rfl
      | true => simpa [h] using hhash
    · exact fun h => hother '-' (by decide) h.1
    · exact fun h => hother '/' (by decide) h.1
  have hquote : quotation r c (w ++ rest) = none := by
    refine quotation_eq_none ?_ (by simpa using hstring) ?_ (hother '$' (by decide))
    · -- a national string needs a quote where the word goes on or ends
      have hhead : (w ++ rest).head? ≠ some '\'' := by
        cases w with
        | nil => simpa using hn
        | cons x w =>
          have := hw x (by simp)
          rw [List.cons_append, List.head?_cons]
          rintro ⟨⟩
          rw [hr.ends '\'' (by decide)] at this
          cases this
      rw [beq_eq_false_iff_ne.mpr hhead, Bool.and_false]
      exact Bool.false_ne_true
    · simp only [Option.isNone_iff_eq_none, List.find?_eq_none, beq_iff_eq]
      exact fun q hq h => hname (h ▸ List.mem_map_of_mem hq)
  have hnumber : number (c :: (w ++ rest)) = none := by
    refine number_eq_none ?_ (hother '.' (by decide))
    by_contra h
    rw [Bool.not_eq_false] at h
    exact hdigits (mem_digits_of_isDigit h)
  have hpar : param r c (w ++ rest) = none := by simp [param, hparam]
  have hword : word r c (w ++ rest) =
      some ⟨if r.isReserved (.ofList (c :: w)) then .keyword else .word, w.length, none⟩ := by
    simp [word, hc, takeWhile_of_boundary hw hb]
  simp [lexeme, htrivia, hquote, plain, hpar, hnumber, hword]

/-! ## Marks -/

/-- Where neither a comment nor a quotation nor a parameter can start, a number, a word, an operator
or a mark does. -/
theorem lexeme_free (hc : r.isFree c = true) (hdash : ¬(c = '-' ∧ cs.head? = some '-'))
    (hstar : ¬(c = '/' ∧ cs.head? = some '*')) :
    lexeme r c cs = .ok ((((number (c :: cs)).map fun n => (⟨.number, n - 1, none⟩ : Lexeme)) <|>
      word r c cs <|> operator r c cs).getD
        ⟨if punctuation.contains c then .punctuation else .unknown, 0, none⟩) := by
  simp only [LexicalRules.isFree, Bool.and_eq_true, Bool.not_eq_true', bne_iff_ne, ne_eq] at hc
  obtain ⟨⟨⟨⟨⟨⟨hblank, hhash⟩, hstring⟩, hname⟩, hdollar⟩, hparam⟩, hN⟩ := hc
  have htrivia : trivia r c cs = .ok none := trivia_eq_none hblank hhash hdash hstar
  have hquote : quotation r c cs = none :=
    quotation_eq_none (by simp [hN]) hstring hname hdollar
  have hpar : param r c cs = none := by
    unfold param
    rw [hparam]
    rfl
  simp [lexeme, htrivia, hquote, plain, hpar]

theorem lexeme_mark (hc : r.isMark c = true) (hdash : ¬(c = '-' ∧ cs.head? = some '-'))
    (hstar : ¬(c = '/' ∧ cs.head? = some '*')) (hnumber : number (c :: cs) = none) :
    lexeme r c cs = .ok ((operator r c cs).getD
      ⟨if punctuation.contains c then .punctuation else .unknown, 0, none⟩) := by
  simp only [LexicalRules.isMark, Bool.and_eq_true, Bool.not_eq_true'] at hc
  have hword : word r c cs = none := by simp [word, hc.2]
  simp [lexeme_free hc.1.1 hdash hstar, hnumber, hword]

theorem operator_eq_none (h : ∀ op ∈ r.operators, op.toList.head? ≠ some c) :
    operator r c cs = none := by
  have hfind : (r.operators.find? fun op => op != "" && op.toList.isPrefixOf (c :: cs)) = none := by
    rw [List.find?_eq_none]
    intro op hop hpre
    simp only [Bool.and_eq_true, bne_iff_ne, ne_eq, List.isPrefixOf_iff_prefix] at hpre
    have hne : op.toList ≠ [] := by simpa using hpre.1
    refine h op hop ?_
    have := hpre.2.head hne
    rw [List.head?_eq_some_head hne]
    simpa using this
  simp [operator, hfind]

theorem lexeme_punctuation (hr : r.Plain) (hc : c ∈ ['(', ')', ',', ';']) :
    lexeme r c cs = .ok ⟨.punctuation, 0, none⟩ := by
  have hmem : c ∈ ['(', ')', ',', ';', '.'] := by
    simp only [List.mem_cons] at hc ⊢
    tauto
  have hne : ∀ x ∈ ['-', '/', '.'], c ≠ x := by
    rintro x hx rfl
    revert hc hx
    simp only [List.mem_cons, List.not_mem_nil, or_false]
    rintro (rfl | rfl | rfl | rfl) <;> decide
  have hmark := hr.punctuation c hmem
  have hdigit : c.isDigit = false := by
    have h := hmark
    simp only [LexicalRules.isMark, Bool.and_eq_true, Bool.not_eq_true'] at h
    exact h.1.2
  rw [lexeme_mark hmark (fun h => hne '-' (by decide) h.1) (fun h => hne '/' (by decide) h.1)
    (number_eq_none hdigit (hne '.' (by decide))),
    operator_eq_none fun op hop => hr.operators op hop c hmem]
  have hp : c ∈ punctuation := by
    simp only [List.mem_cons, List.not_mem_nil, or_false] at hc
    rcases hc with rfl | rfl | rfl | rfl <;> decide
  simp [hp]

/-- A dot is no number unless a digit follows. -/
theorem lexeme_dot (hr : r.Plain) (hcs : ∀ x ∈ cs.head?, x.isDigit = false) :
    lexeme r '.' cs = .ok ⟨.punctuation, 0, none⟩ := by
  have hnumber : number ('.' :: cs) = none := by
    have h0 : digits ('.' :: cs) = 0 := by simp [digits]
    have h1 : digits cs = 0 := by
      cases cs with
      | nil => rfl
      | cons x cs => simp [digits, hcs x rfl]
    simp [number, mantissa, h0, h1]
  rw [lexeme_mark (hr.punctuation '.' (by decide)) (by simp) (by simp) hnumber,
    operator_eq_none fun op hop => hr.operators op hop '.' (by decide)]
  rfl

/-! ## Operators -/

end Lexer

/-- Whether the symbol `op` may start a text of `w` and a text whose first character is `h`. -/
def LexicalRules.mayStart (op w : List Char) (h : Option Char) : Bool :=
  op.isPrefixOf w || (w.isPrefixOf op && (op.drop w.length).head? == h)

/-- The first operator of the table that may be read where `w` stands before `h`. -/
def LexicalRules.firstOperator (r : LexicalRules) (w : List Char) (h : Option Char) :
    Option String :=
  r.operators.find? fun op => op != "" && mayStart op.toList w h

namespace Lexer

variable {r : LexicalRules} {c : Char} {cs w rest : List Char}

theorem mayStart_of_start {op : List Char} (h : op <+: w ++ rest) :
    LexicalRules.mayStart op w rest.head? = true := by
  rcases List.prefix_or_prefix_of_prefix h (List.prefix_append w rest) with hop | ⟨s, rfl⟩
  · simp [LexicalRules.mayStart, List.isPrefixOf_iff_prefix.mpr hop]
  · have hs : s <+: rest := (List.prefix_append_right_inj w).mp h
    cases s with
    | nil => simp [LexicalRules.mayStart]
    | cons x s =>
      have hx : rest.head? = some x := by
        obtain ⟨t, rfl⟩ := hs
        rfl
      simp [LexicalRules.mayStart, hx]

theorem operator_of_first {op : String} (hop : op.toList = c :: w)
    (hfirst : r.firstOperator (c :: w) rest.head? = some op) :
    operator r c (w ++ rest) = some ⟨.operator, w.length, none⟩ := by
  have hfind : (r.operators.find? fun x => x != "" && x.toList.isPrefixOf (c :: (w ++ rest))) =
      some op := by
    rw [LexicalRules.firstOperator, List.find?_eq_some_iff_append] at hfirst
    obtain ⟨hmatch, before, after, htable, hbefore⟩ := hfirst
    rw [List.find?_eq_some_iff_append]
    refine ⟨?_, before, after, htable, fun x hx => ?_⟩
    · simp only [Bool.and_eq_true] at hmatch ⊢
      exact ⟨hmatch.1, by simp [hop]⟩
    · have := hbefore x hx
      simp only [Bool.not_eq_true', Bool.and_eq_false_iff] at this ⊢
      refine this.imp id fun hno => ?_
      by_contra hyes
      rw [Bool.not_eq_false, List.isPrefixOf_iff_prefix] at hyes
      rw [mayStart_of_start (w := c :: w) hyes] at hno
      cases hno
  simp [operator, hfind, hop]

theorem lexeme_operator {op : String} (hc : r.isMark c = true) (hop : op.toList = c :: w)
    (hfirst : r.firstOperator (c :: w) rest.head? = some op) (hdot : c ≠ '.')
    (hdash : ¬(c = '-' ∧ (w ++ rest).head? = some '-'))
    (hstar : ¬(c = '/' ∧ (w ++ rest).head? = some '*')) :
    lexeme r c (w ++ rest) = .ok ⟨.operator, w.length, none⟩ := by
  have hdigit : c.isDigit = false := by
    simp only [LexicalRules.isMark, Bool.and_eq_true, Bool.not_eq_true'] at hc
    exact hc.1.2
  rw [lexeme_mark hc hdash hstar (number_eq_none hdigit hdot), operator_of_first hop hfirst]
  rfl

/-! ## Numbers -/

theorem digits_le_length (cs : List Char) : digits cs ≤ cs.length :=
  (List.takeWhile_prefix _).length_le

theorem digits_append (h : ∀ x ∈ rest.head?, x.isDigit = false) :
    digits (cs ++ rest) = digits cs := by
  induction cs with
  | nil =>
    cases rest with
    | nil => rfl
    | cons x rest => simp [digits, h x rfl]
  | cons x cs ih =>
    unfold digits at ih ⊢
    by_cases hx : x.isDigit = true <;> simp [hx, ih]

/-- The characters that may go on with a number. -/
def continuesNumber (c : Char) : Bool := c.isDigit || c == '.' || c == 'e' || c == 'E'

theorem mantissa_append (h : ∀ x ∈ rest.head?, continuesNumber x = false) :
    mantissa (cs ++ rest) = mantissa cs := by
  have hdigit : ∀ x ∈ rest.head?, x.isDigit = false := fun x hx => by
    have := h x hx
    simp only [continuesNumber, Bool.or_eq_false_iff] at this
    exact this.1.1.1
  simp only [mantissa, digits_append hdigit, List.drop_append_of_le_length (digits_le_length cs)]
  cases hcs : cs.drop (digits cs) with
  | nil =>
    cases rest with
    | nil => rfl
    | cons x rest =>
      have hx : x ≠ '.' := by
        rintro rfl
        cases h '.' rfl
      simp [hx]
  | cons x tail =>
    by_cases hx : x = '.'
    · subst hx
      simp [digits_append hdigit]
    · simp [hx]

theorem mantissa_le_length {n : Nat} (h : mantissa cs = some n) : n ≤ cs.length := by
  have hle := digits_le_length cs
  unfold mantissa at h
  dsimp only at h
  split at h
  · next tail heq =>
    have hlen := congrArg List.length heq
    have := digits_le_length tail
    simp only [List.length_drop, List.length_cons] at hlen
    split at h
    · obtain rfl := Option.some.inj h
      omega
    · cases h
  · split at h
    · obtain rfl := Option.some.inj h
      exact hle
    · cases h

/-- An exponent that goes to the end of its text ends there whatever follows. -/
theorem exponent_append (hfull : exponent cs = cs.length)
    (h : ∀ x ∈ rest.head?, continuesNumber x = false) :
    exponent (cs ++ rest) = cs.length := by
  have hdigit : ∀ x ∈ rest.head?, x.isDigit = false := fun x hx => by
    have := h x hx
    simp only [continuesNumber, Bool.or_eq_false_iff] at this
    exact this.1.1.1
  cases cs with
  | nil =>
    cases rest with
    | nil => rfl
    | cons x rest =>
      have := h x rfl
      simp only [continuesNumber, Bool.or_eq_false_iff] at this
      simp [exponent, this.1.2, this.2]
  | cons e tail =>
    by_cases he : (e == 'e' || e == 'E') = true
    · cases tail with
      | nil => simp [exponent, he] at hfull
      | cons s ds =>
        have hds : digits (ds ++ rest) = digits ds := digits_append hdigit
        have htail : digits ((s :: ds) ++ rest) = digits (s :: ds) := digits_append hdigit
        rw [List.cons_append] at htail
        simpa only [List.cons_append, exponent, he, if_true, hds, htail] using hfull
    · simp [exponent, he] at hfull

/-- A number that is a whole text is read from it whatever follows. -/
theorem number_append (hfull : number cs = some cs.length)
    (h : ∀ x ∈ rest.head?, continuesNumber x = false) :
    number (cs ++ rest) = some cs.length := by
  unfold number at hfull ⊢
  rw [mantissa_append h]
  cases hm : mantissa cs with
  | none => simp [hm] at hfull
  | some n =>
    have hle := mantissa_le_length hm
    simp only [hm, Option.map_some, Option.some.injEq] at hfull ⊢
    rw [List.drop_append_of_le_length hle, exponent_append (by simp; omega) h]
    simp only [List.length_drop]
    omega

theorem number_head (h : (number (c :: cs)).isSome = true) :
    c ∈ '.' :: LexicalRules.decimalDigits := by
  by_contra hc
  simp only [List.mem_cons, not_or] at hc
  rw [number_eq_none _ hc.1] at h
  · cases h
  · by_contra hd
    rw [Bool.not_eq_false] at hd
    exact hc.2 (mem_digits_of_isDigit hd)

/-- The characters of numbers. -/
def numberChars : List Char := ['.', 'e', 'E', '+', '-'] ++ LexicalRules.decimalDigits

theorem mem_numberChars_of_take_digits (h : c ∈ cs.take (digits cs)) : c ∈ numberChars := by
  unfold digits at h
  rw [← List.prefix_iff_eq_take.mp (List.takeWhile_prefix _)] at h
  exact List.mem_append_right _ (mem_digits_of_isDigit (List.mem_takeWhile_imp h))

theorem mantissa_chars {n : Nat} (hn : mantissa cs = some n) : ∀ c ∈ cs.take n, c ∈ numberChars := by
  have hle := digits_le_length cs
  unfold mantissa at hn
  dsimp only at hn
  split at hn
  · next tail heq =>
    split at hn
    · obtain rfl := Option.some.inj hn
      intro c hc
      have hsplit : cs.take (digits cs + 1 + digits tail) =
          cs.take (digits cs) ++ '.' :: tail.take (digits tail) := by
        rw [show digits cs + 1 + digits tail = digits cs + (1 + digits tail) by omega,
          List.take_add, heq, Nat.add_comm 1, List.take_succ_cons]
      rw [hsplit, List.mem_append, List.mem_cons] at hc
      rcases hc with hc | rfl | hc
      · exact mem_numberChars_of_take_digits hc
      · decide
      · exact mem_numberChars_of_take_digits hc
    · cases hn
  · split at hn
    · obtain rfl := Option.some.inj hn
      exact fun c hc => mem_numberChars_of_take_digits hc
    · cases hn

theorem exponent_chars : ∀ c ∈ cs.take (exponent cs), c ∈ numberChars := by
  intro x hx
  unfold exponent at hx
  split at hx
  · next e tail =>
    split at hx
    · next he =>
      have he' : e ∈ numberChars := by
        simp only [Bool.or_eq_true, beq_iff_eq] at he
        rcases he with rfl | rfl <;> decide
      split at hx
      · next s ds =>
        split at hx
        · next hs =>
          have hs' : s ∈ numberChars := by
            simp only [Bool.or_eq_true, beq_iff_eq] at hs
            rcases hs with rfl | rfl <;> decide
          split at hx
          · simp only [List.take_succ_cons, List.mem_cons] at hx
            rcases hx with rfl | rfl | hx
            · exact he'
            · exact hs'
            · exact mem_numberChars_of_take_digits hx
          · simp at hx
        · split at hx
          · rw [List.take_succ_cons, List.mem_cons] at hx
            rcases hx with rfl | hx
            · exact he'
            · exact mem_numberChars_of_take_digits hx
          · simp at hx
      · simp at hx
    · simp at hx
  · simp at hx

theorem number_chars (hfull : number cs = some cs.length) : ∀ c ∈ cs, c ∈ numberChars := by
  unfold number at hfull
  cases hm : mantissa cs with
  | none => simp [hm] at hfull
  | some n =>
    have hle := mantissa_le_length hm
    simp only [hm, Option.map_some, Option.some.injEq] at hfull
    intro c hc
    rw [← List.take_append_drop n cs, List.mem_append] at hc
    rcases hc with hc | hc
    · exact mantissa_chars hm c hc
    · have hexp : ∀ c ∈ (cs.drop n).take (exponent (cs.drop n)), c ∈ numberChars := exponent_chars
      refine hexp c ?_
      rwa [List.take_of_length_le (by simp; omega)]

theorem lexeme_number (hr : r.Plain) (hfull : number (c :: w) = some (w.length + 1))
    (h : ∀ x ∈ rest.head?, continuesNumber x = false) :
    lexeme r c (w ++ rest) = .ok ⟨.number, w.length, none⟩ := by
  have hsome : (number (c :: w)).isSome = true := by rw [hfull]; rfl
  have hmem : c ∈ '.' :: LexicalRules.decimalDigits := number_head hsome
  have hne : c ≠ '-' ∧ c ≠ '/' := by
    constructor <;> rintro rfl <;> revert hmem <;> decide
  have hnum : number ((c :: w) ++ rest) = some (c :: w).length :=
    number_append (by simpa using hfull) h
  rw [lexeme_free (hr.numbers c hmem) (fun h => hne.1 h.1) (fun h => hne.2 h.1)]
  rw [List.cons_append] at hnum
  simp [hnum]

/-! ## Quotations -/

theorem doubled_cons (c x : Char) (cs : List Char) :
    Target.doubled c (x :: cs) = (if x == c then [c, c] else [x]) ++ Target.doubled c cs := rfl

/-- A closing quote behind a text is read as such unless a second one follows. -/
theorem quoted_closing {close : Char} {escapes : Bool} (h : rest.head? ≠ some close) :
    quoted close escapes (close :: rest) = some ([], 1) := by
  cases rest with
  | nil => simp [quoted]
  | cons x rest =>
    have hx : x ≠ close := by simpa using h
    simp [quoted, hx]

theorem quoted_inside {close x : Char} {escapes : Bool} (hx : x ≠ close)
    (he : (escapes && x == '\\') = false) :
    quoted close escapes (x :: cs) =
      (quoted close escapes cs).map fun (v, n) => (x :: v, n + 1) := by
  rw [quoted.eq_def]
  simp only [hx, if_false, he, Bool.false_eq_true]

/-- The contents of a quoted name are read back. -/
theorem quoted_doubled {close : Char} (v : List Char) (h : rest.head? ≠ some close) :
    quoted close false (Target.doubled close v ++ close :: rest) =
      some (v, (Target.doubled close v).length + 1) := by
  induction v with
  | nil => exact quoted_closing h
  | cons x v ih =>
    rw [doubled_cons]
    by_cases hx : x = close
    · subst hx
      simp [quoted, ih]
    · simp [hx, quoted_inside hx (show (false && x == '\\') = false from rfl), ih]

/-- The contents of a string with its quotes doubled, and its backslashes where they escape. -/
def stringBody (r : LexicalRules) (v : List Char) : List Char :=
  if r.backslashEscapes then Target.doubled '\\' (Target.doubled '\'' v)
  else Target.doubled '\'' v

theorem quoted_stringBody (v : List Char) (h : rest.head? ≠ some '\'') :
    quoted '\'' r.backslashEscapes (stringBody r v ++ '\'' :: rest) =
      some (v, (stringBody r v).length + 1) := by
  unfold stringBody
  cases r.backslashEscapes with
  | false => exact quoted_doubled v h
  | true =>
    simp only [if_true]
    induction v with
    | nil => exact quoted_closing h
    | cons x v ih =>
      rw [doubled_cons]
      by_cases hq : x = '\''
      · subst hq
        simp [doubled_cons, quoted, ih]
      · by_cases hb : x = '\\'
        · subst hb
          simp [doubled_cons, quoted, ih, unescape]
        · have he : (true && x == '\\') = false := by simpa using hb
          simp [hq, hb, doubled_cons, quoted_inside hq he, ih]

theorem lexeme_string (hr : r.Plain) (v : List Char) (h : rest.head? ≠ some '\'') :
    lexeme r '\'' (stringBody r v ++ '\'' :: rest) =
      .ok ⟨.string, (stringBody r v).length + 1, some (.ofList v)⟩ := by
  have htrivia : trivia r '\'' (stringBody r v ++ '\'' :: rest) = .ok none :=
    trivia_eq_none (by decide) (by simp) (by simp) (by simp)
  have hquote : quotation r '\'' (stringBody r v ++ '\'' :: rest) =
      some (.ok ⟨.string, (stringBody r v).length + 1, some (.ofList v)⟩) := by
    simp [quotation, hr.strings, stringAfter, quoted_stringBody v h]
  simp [lexeme, htrivia, hquote]

theorem lexeme_quotedName {q : Char × Char} (hq : r.quotesBy q = true) (v : List Char)
    (h : rest.head? ≠ some q.2) :
    lexeme r q.1 (Target.doubled q.2 v ++ q.2 :: rest) =
      .ok ⟨.quotedName, (Target.doubled q.2 v).length + 1, some (.ofList v)⟩ := by
  simp only [LexicalRules.quotesBy, Bool.and_eq_true, Bool.not_eq_true', bne_iff_ne, ne_eq,
    beq_iff_eq] at hq
  obtain ⟨⟨⟨⟨⟨⟨hblank, hhash⟩, hdash⟩, hslash⟩, hN⟩, hstring⟩, hfind⟩ := hq
  have htrivia : trivia r q.1 (Target.doubled q.2 v ++ q.2 :: rest) = .ok none :=
    trivia_eq_none hblank hhash (fun h => hdash h.1) (fun h => hslash h.1)
  have hquote : quotation r q.1 (Target.doubled q.2 v ++ q.2 :: rest) =
      some (.ok ⟨.quotedName, (Target.doubled q.2 v).length + 1, some (.ofList v)⟩) := by
    unfold quotation
    rw [hN, hstring, hfind]
    simp [nameAfter, quoted_doubled v h]
  simp [lexeme, htrivia, hquote]

/-! ## Kinds -/

variable {l : Lexeme}

theorem kind_of_trivia (h : trivia r c cs = .ok (some l)) : l.kind.isTrivia = true := by
  unfold trivia at h
  split at h
  · obtain rfl := Option.some.inj (Except.ok.inj h)
    rfl
  · split at h
    · obtain rfl := Option.some.inj (Except.ok.inj h)
      rfl
    · split at h
      · split at h
        · obtain rfl := Option.some.inj (Except.ok.inj h)
          rfl
        · cases h
      · cases h

theorem kind_of_quotation (h : quotation r c cs = some (.ok l)) :
    l.kind = .string ∨ l.kind = .quotedName := by
  have hstring {quote : Char} {skipped : Nat} {body : List Char}
      (h : stringAfter r quote skipped body = .ok l) : l.kind = .string := by
    unfold stringAfter at h
    split at h
    · obtain rfl := Except.ok.inj h
      rfl
    · cases h
  unfold quotation at h
  split at h
  · exact .inl (hstring (Option.some.inj h))
  split at h
  · exact .inl (hstring (Option.some.inj h))
  split at h
  · have hname := Option.some.inj h
    unfold nameAfter at hname
    split at hname
    · obtain rfl := Except.ok.inj hname
      exact .inr rfl
    · cases hname
  · split at h
    · obtain ⟨tag, -, hbody⟩ := Option.map_eq_some_iff.mp h
      unfold dollarAfter at hbody
      dsimp only at hbody
      split at hbody
      · obtain rfl := Except.ok.inj hbody
        exact .inl rfl
      · cases hbody
    · cases h

/-- A token without quotes is a parameter, a number, a word or a mark, found in this order. -/
theorem plain_cases : (plain r c cs).kind = .param ∨
    (∃ n, number (c :: cs) = some n ∧ plain r c cs = ⟨.number, n - 1, none⟩) ∨
    word r c cs = some (plain r c cs) ∨
    (plain r c cs).kind = .operator ∨ (plain r c cs).kind = .punctuation ∨
      (plain r c cs).kind = .unknown := by
  unfold plain
  cases hp : param r c cs with
  | some l =>
    refine .inl ?_
    unfold param at hp
    split at hp
    · obtain ⟨n, -, rfl⟩ := Option.map_eq_some_iff.mp hp
      rfl
    · cases hp
  | none =>
    refine .inr ?_
    cases hn : number (c :: cs) with
    | some n => exact .inl ⟨n, rfl, rfl⟩
    | none =>
      cases hw : word r c cs with
      | some l => exact .inr (.inl rfl)
      | none =>
        refine .inr (.inr ?_)
        cases ho : operator r c cs with
        | some l =>
          unfold operator at ho
          obtain ⟨op, -, rfl⟩ := Option.map_eq_some_iff.mp ho
          exact .inl rfl
        | none =>
          refine .inr ?_
          simp only [Option.map_none]
          by_cases hmark : punctuation.contains c = true
          · exact .inl (if_pos hmark)
          · exact .inr (if_neg hmark)

/-- What is neither trivia nor a quotation is read without quotes. -/
theorem plain_of_lexeme (h : lexeme r c cs = .ok l) (htrivia : l.kind.isTrivia = false)
    (hquotes : l.kind ≠ .string ∧ l.kind ≠ .quotedName) : plain r c cs = l := by
  unfold lexeme at h
  split at h
  · cases h
  · next hl =>
    obtain rfl := Except.ok.inj h
    rw [kind_of_trivia hl] at htrivia
    cases htrivia
  · cases hq : quotation r c cs with
    | none =>
      rw [hq, Option.getD_none] at h
      exact Except.ok.inj h
    | some e =>
      rw [hq, Option.getD_some] at h
      subst h
      rcases kind_of_quotation hq with hkind | hkind
      · exact absurd hkind hquotes.1
      · exact absurd hkind hquotes.2

/-- A bare word is found as one. -/
theorem word_of_lexeme (h : lexeme r c cs = .ok l) (hkind : l.kind = .word ∨ l.kind = .keyword) :
    word r c cs = some l := by
  have hplain : plain r c cs = l := by
    refine plain_of_lexeme h ?_ ?_ <;> rcases hkind with hkind | hkind <;> simp [hkind, Token.Kind.isTrivia]
  rcases @plain_cases r c cs with hl | ⟨n, -, hl⟩ | hw | hl | hl | hl
  · rcases hkind with hkind | hkind <;> simp [hplain, hkind] at hl
  · rw [hplain] at hl
    rcases hkind with hkind | hkind <;> simp [hl] at hkind
  · rwa [hplain] at hw
  all_goals rcases hkind with hkind | hkind <;> simp [hplain, hkind] at hl

/-- A number is found as one. -/
theorem number_of_lexeme (h : lexeme r c cs = .ok l) (hkind : l.kind = .number) :
    ∃ n, number (c :: cs) = some n ∧ l = ⟨.number, n - 1, none⟩ := by
  have hplain : plain r c cs = l := plain_of_lexeme h (by rw [hkind]; rfl) (by simp [hkind])
  rcases @plain_cases r c cs with hl | ⟨n, hn, hl⟩ | hw | hl | hl | hl
  · simp [hplain, hkind] at hl
  · exact ⟨n, hn, hplain.symm.trans hl⟩
  · rw [hplain] at hw
    unfold word at hw
    split at hw
    · have hword := congrArg Lexeme.kind (Option.some.inj hw)
      rw [hkind] at hword
      dsimp only at hword
      split at hword <;> cases hword
    · cases hw
  all_goals simp [hplain, hkind] at hl

theorem number_pos {n : Nat} (h : number cs = some n) : 0 < n := by
  unfold number at h
  obtain ⟨m, hm, rfl⟩ := Option.map_eq_some_iff.mp h
  unfold mantissa at hm
  dsimp only at hm
  split at hm
  · split at hm
    · obtain rfl := Option.some.inj hm
      omega
    · cases hm
  · split at hm
    · obtain rfl := Option.some.inj hm
      omega
    · cases hm

end Lexer

theorem quotesBy_of_mem_builtins :
    ∀ d ∈ Dialect.builtins, d.lexical.quotesBy d.writing.nameQuote = true := by
  decide +kernel

end SqlDialects
