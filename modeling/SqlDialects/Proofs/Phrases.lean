import SqlDialects.Proofs.Spelling

/-!
# Texts put together

* `Spelled` : a text that spells its tokens before a blank, a comma, a closing parenthesis or the end;
* `Spelled.join`, `Spelled.parens`, `Spelled.commaList`, `Spelled.clauses`, ... : the tokens of the
  texts that the layout makes of others;
* `Spelled.phrase` : words with blanks between them;
* `Spelled.name`, `Spelled.path` : names, bare or in quotes.
-/

namespace SqlDialects

open Text

/-! ## Tokens -/

/-- A punctuation mark as a token. -/
def Shape.mark (s : String) : Shape := (.punctuation, s)

/-- The tokens of the elements of a list behind commas. -/
def behindCommas (tss : List (List Shape)) : List Shape := tss.flatMap (.mark "," :: ·)

/-- The tokens of the elements of a list with commas between them. -/
def betweenCommas : List (List Shape) → List Shape
  | [] => []
  | ts :: tss => ts ++ behindCommas tss

@[simp] theorem behindCommas_nil : behindCommas [] = [] := rfl

@[simp] theorem behindCommas_cons (ts : List Shape) (tss : List (List Shape)) :
    behindCommas (ts :: tss) = .mark "," :: (ts ++ behindCommas tss) := rfl

/-- The tokens behind dots. -/
def behindDots (ss : List Shape) : List Shape := ss.flatMap fun s => [.mark ".", s]

/-- Tokens with dots between them. -/
def betweenDots : List Shape → List Shape
  | [] => []
  | s :: ss => s :: behindDots ss

@[simp] theorem behindDots_nil : behindDots [] = [] := rfl

@[simp] theorem behindDots_cons (s : Shape) (ss : List Shape) :
    behindDots (s :: ss) = .mark "." :: s :: behindDots ss := rfl

/-- A name as a token. -/
def Name.shape (n : Name) : Shape :=
  if n.quoted then (.quotedName, n.text) else (.word, n.text)

/-- The name that is read where `n` is written. -/
def Target.reread (t : Target) (n : Name) : Name :=
  ⟨n.text, n.quoted || t.layout.identify || t.needsQuotes n.text⟩

/-- The tokens of a list in parentheses. -/
def inParens (ts : List Shape) : List Shape := .mark "(" :: (ts ++ [.mark ")"])

/-! ## Texts -/

/-- The text `s` spells the tokens `ts` before what may follow a token. -/
def Spelled (d : Dialect) (s : String) (ts : List Shape) : Prop :=
  ∀ h ∈ closers, Spells d h s.toList ts

namespace Spelled

variable {d : Dialect} {s r : String} {ts us : List Shape}

/-- The same characters spell the same tokens. -/
theorem of_eq (hr : Spelled d r ts) (heq : s.toList = r.toList) : Spelled d s ts := by
  rwa [String.toList_inj.mp heq]

theorem empty (d : Dialect) : Spelled d "" [] := fun _ _ => .nil

theorem append (hs : Spelled d s ts) (hr : Spelled d r us) (hhead : r.toList.head? ∈ closers) :
    Spelled d (s ++ r) (ts ++ us) := by
  intro h hh
  rw [String.toList_append]
  refine Spells.append (hs _ ?_) (hr h hh)
  cases hlist : r.toList with
  | nil => simpa using hh
  | cons c cs => simpa [hlist] using hhead

/-- What stands between words: a blank or a line end. -/
def gaps : List String := [" ", "\n"]

theorem blank_mem : " " ∈ gaps := by simp [gaps]

theorem line_mem : "\n" ∈ gaps := by simp [gaps]

theorem mem_gaps {gap : String} : gap ∈ gaps ↔ gap = " " ∨ gap = "\n" := by simp [gaps]

theorem behindGap {gap : String} (hgap : gap ∈ gaps) (hr : Spelled d r us) :
    Spelled d (gap ++ r) us := by
  intro h hh
  rw [String.toList_append]
  rcases mem_gaps.mp hgap with rfl | rfl
  · exact .blank (.inl rfl) (hr h hh)
  · exact .blank (.inr rfl) (hr h hh)

theorem join {gap : String} (hgap : gap ∈ gaps) (hs : Spelled d s ts) (hr : Spelled d r us) :
    Spelled d (s ++ gap ++ r) (ts ++ us) := by
  rw [String.append_assoc]
  refine hs.append (hr.behindGap hgap) ?_
  rcases mem_gaps.mp hgap with rfl | rfl <;> simp [closers]

theorem behindMark (hd : d.Legible) {c : Char} (hc : c ∈ ['(', ')', ',', ';'])
    (hr : Spelled d r us) :
    Spelled d (String.ofList [c] ++ r) (.mark (String.ofList [c]) :: us) := by
  intro h hh
  rw [String.toList_append, String.toList_ofList]
  exact .token (isToken_punctuation hd hc) (hr h hh)

theorem opened (hd : d.Legible) (hr : Spelled d r us) :
    Spelled d ("(" ++ r) (.mark "(" :: us) :=
  behindMark hd (c := '(') (by decide) hr

theorem closed (hd : d.Legible) (hs : Spelled d s ts) : Spelled d (s ++ ")") (ts ++ [.mark ")"]) :=
  hs.append (by simpa using (empty d).behindMark hd (c := ')') (by decide)) (by decide)

theorem parens (hd : d.Legible) (hs : Spelled d s ts) : Spelled d ("(" ++ s ++ ")") (inParens ts) := by
  rw [String.append_assoc]
  exact (hs.closed hd).opened hd

/-- What stands between the elements of a list. -/
def listGaps : List String := [", ", ",\n"]

theorem mem_listGaps {gap : String} : gap ∈ listGaps ↔ gap = ", " ∨ gap = ",\n" := by
  simp [listGaps]

theorem behindComma (hd : d.Legible) {gap : String} (hgap : gap ∈ listGaps) (hr : Spelled d r us) :
    Spelled d (gap ++ r) (.mark "," :: us) := by
  rcases mem_listGaps.mp hgap with rfl | rfl
  · exact (hr.behindGap blank_mem).behindMark hd (c := ',') (by decide)
  · exact (hr.behindGap line_mem).behindMark hd (c := ',') (by decide)

theorem commaList (hd : d.Legible) {gap : String} (hgap : gap ∈ listGaps) {texts : List String}
    {tss : List (List Shape)} (h : List.Forall₂ (Spelled d) texts tss) :
    Spelled d (String.intercalate gap texts) (betweenCommas tss) := by
  induction h with
  | nil => exact empty d
  | @cons text ts texts tss htext hrest ih =>
    cases hrest with
    | nil => simpa [betweenCommas] using htext
    | cons hnext hmore =>
      rw [String.intercalate_cons_cons, String.append_assoc]
      refine htext.append (ih.behindComma hd hgap) ?_
      rcases mem_listGaps.mp hgap with rfl | rfl <;> simp [closers]

/-- Texts with gaps between them. -/
theorem gapList {gap : String} (hgap : gap ∈ gaps) {texts : List String} {tss : List (List Shape)}
    (h : List.Forall₂ (Spelled d) texts tss) : Spelled d (String.intercalate gap texts) tss.flatten := by
  induction h with
  | nil => exact empty d
  | @cons text ts texts tss htext hrest ih =>
    cases hrest with
    | nil => simpa using htext
    | cons hnext hmore =>
      rw [String.intercalate_cons_cons]
      exact htext.join hgap ih

/-- A text without characters has no tokens. -/
theorem eq_nil (h : Spelled d "" ts) : ts = [] := by
  have hspells := h none (by simp [closers])
  generalize hcs : ("" : String).toList = cs at hspells
  cases hspells with
  | nil => rfl
  | blank => cases hcs
  | @run w cs ss ts hw _ =>
    obtain ⟨c, tail, rfl, -⟩ := hw.starts
    cases hcs

/-! ## Layout -/

variable {t : Target}

theorem indent (hd : d.Legible) (ht : t.dialect = d) (hs : Spelled d s ts) :
    Spelled d (t.indent s) ts :=
  fun h hh => (hs h hh).indent hd ht

theorem separator_mem (t : Target) : t.separator ∈ gaps := by
  unfold Target.separator
  split <;> simp [gaps]

theorem comma_mem (t : Target) : t.comma ∈ listGaps := by
  unfold Target.comma
  split <;> simp [listGaps]

theorem block (hd : d.Legible) (ht : t.dialect = d) (hs : Spelled d s ts) :
    Spelled d (t.block s) (inParens ts) := by
  unfold Target.block
  split
  · have hlines := (hs.indent hd ht).join line_mem ((empty d).closed hd)
    have hopened := (hlines.behindGap line_mem).opened hd
    rw [show Shape.mark "(" :: (ts ++ ([] ++ [Shape.mark ")"])) = inParens ts from rfl] at hopened
    exact hopened.of_eq (by simp)
  · simpa using hs.parens hd

theorem listClause (hd : d.Legible) (ht : t.dialect = d) {keyword : String}
    (hkey : Spelled d keyword ts) {items : List String} {tss : List (List Shape)}
    (h : List.Forall₂ (Spelled d) items tss) :
    Spelled d (t.listClause keyword items) (ts ++ betweenCommas tss) := by
  have hlist := commaList hd (comma_mem t) h
  unfold Target.listClause
  split
  · simpa using hkey.join line_mem (hlist.indent hd ht)
  · simpa using hkey.join blank_mem hlist

theorem clauses {parts : List String} {tss : List (List Shape)} (t : Target)
    (h : List.Forall₂ (Spelled d) parts tss) : Spelled d (t.clauses parts) tss.flatten := by
  have hkept : ∃ uss, List.Forall₂ (Spelled d) (parts.filter (· != "")) uss ∧
      uss.flatten = tss.flatten := by
    induction h with
    | nil => exact ⟨[], .nil, rfl⟩
    | @cons part ts parts tss hpart _ ih =>
      obtain ⟨uss, huss, hflat⟩ := ih
      by_cases hp : part = ""
      · subst hp
        exact ⟨uss, by simpa using huss, by simp [hflat, hpart.eq_nil]⟩
      · refine ⟨ts :: uss, ?_, by simp [hflat]⟩
        rw [List.filter_cons_of_pos (by simpa using hp)]
        exact .cons hpart huss
  obtain ⟨uss, huss, hflat⟩ := hkept
  rw [← hflat]
  exact gapList (separator_mem t) huss

/-! ## Words -/

/-- Whether `w` is made of letters in upper case, underscores and digits, and starts with a
letter. -/
def isPlainWord (w : String) : Bool :=
  match w.toList with
  | [] => false
  | c :: cs => c.isUpper && cs.all fun c => c.isUpper || c == '_' || c.isDigit

theorem isAscii_of_le {c : Char} (hc : c.val ≤ 127) : isAscii c = true := by
  simp only [isAscii, decide_eq_true_eq]
  exact UInt32.lt_of_le_of_lt hc (by decide)

theorem isAlphabetic_of_isUpper {c : Char} (hc : c.isUpper = true) : isAlphabetic c = true := by
  have hle : c.val ≤ 90 := by
    simp only [Char.isUpper, decide_eq_true_eq] at hc
    exact hc.2
  rw [isAlphabetic_of_isAscii (isAscii_of_le (UInt32.le_trans hle (by decide)))]
  simp [Char.isAlpha, hc]

theorem isNumeric_of_isDigit {c : Char} (hc : c.isDigit = true) : isNumeric c = true := by
  have hle : c.val ≤ 57 := by
    simp only [Char.isDigit, Bool.and_eq_true, decide_eq_true_eq] at hc
    exact hc.2
  simp [isNumeric, isAscii_of_le (UInt32.le_trans hle (by decide)), hc]

theorem isBare_of_isPlainWord {w : String} (hw : isPlainWord w = true) : d.isBare w = true := by
  unfold isPlainWord at hw
  unfold Dialect.isBare
  cases hlist : w.toList with
  | nil =>
    rw [hlist] at hw
    cases hw
  | cons c cs =>
    simp only [hlist, Bool.and_eq_true, List.all_eq_true] at hw ⊢
    refine ⟨by simp [Lexer.startsWord, isAlphabetic_of_isUpper hw.1], fun x hx => ?_⟩
    have hx := hw.2 x hx
    simp only [Bool.or_eq_true, beq_iff_eq] at hx
    rcases hx with (hx | rfl) | hx
    · simp [Lexer.continuesWord, isAlphanumeric, isAlphabetic_of_isUpper hx]
    · simp [Lexer.continuesWord]
    · simp [Lexer.continuesWord, isAlphanumeric, isNumeric_of_isDigit hx]

theorem closers_subset_wordEnds {h : Option Char} (hh : h ∈ closers) : h ∈ wordEnds := by
  revert h
  decide

theorem bare (hd : d.Legible) {w : String} (hw : d.isBare w = true) : Spelled d w [d.bare w] := by
  intro h hh
  have htoken := isToken_word hd hw (h := h) (closers_subset_wordEnds hh)
  exact .single htoken

theorem word (hd : d.Legible) {w : String} (hw : isPlainWord w = true) : Spelled d w [d.bare w] :=
  bare hd (isBare_of_isPlainWord hw)

/-- Words with blanks between them. -/
theorem phrase (hd : d.Legible) {ws : List String} (hws : ∀ w ∈ ws, isPlainWord w = true) :
    Spelled d (String.intercalate " " ws) (ws.map d.bare) := by
  have hall : List.Forall₂ (Spelled d) ws (ws.map fun w => [d.bare w]) := by
    induction ws with
    | nil => exact .nil
    | cons w ws ih => exact .cons (word hd (hws w (by simp))) (ih fun x hx => hws x (by simp [hx]))
  have hlist := gapList blank_mem hall
  rwa [← List.flatMap_def, ← List.map_eq_flatMap] at hlist

/-- A word right before an opening parenthesis. -/
theorem called (hd : d.Legible) {w : String} (hw : d.isBare w = true) (hs : Spelled d s ts) :
    Spelled d (w ++ "(" ++ s ++ ")") (d.bare w :: inParens ts) := by
  intro h hh
  have hrest := hs.parens hd h hh
  have htoken := isToken_word hd hw (h := some '(') (by decide)
  rw [show w ++ "(" ++ s ++ ")" = w ++ ("(" ++ s ++ ")") by simp [String.append_assoc],
    String.toList_append]
  exact .token (by simpa using htoken) hrest

/-! ## Names -/

/-- A text that is one token before what may follow a name, and starts with no digit. -/
structure Dottable (d : Dialect) (w : String) (s : Shape) : Prop where
  token : ∀ h ∈ wordEnds, IsToken d h w.toList s
  starts : ∀ c ∈ w.toList.head?, c.isDigit = false

theorem Dottable.spelled {w : String} {x : Shape} (hw : Dottable d w x) : Spelled d w [x] := by
  intro h hh
  have htoken := hw.token h (closers_subset_wordEnds hh)
  exact .single htoken

theorem dottable_bare (hd : d.Legible) {w : String} (hw : d.isBare w = true) :
    Dottable d w (d.bare w) := by
  refine ⟨fun h hh => isToken_word hd hw hh, fun c hc => ?_⟩
  unfold Dialect.isBare at hw
  split at hw
  · cases hw
  · next x cs hlist =>
    rw [Bool.and_eq_true] at hw
    obtain rfl : x = c := by simpa [hlist] using hc
    by_contra hdigit
    rw [Bool.not_eq_false] at hdigit
    have := hd.plain.starts x (by simp [LexicalRules.openers, Lexer.mem_digits_of_isDigit hdigit])
    rw [hw.1] at this
    cases this

theorem dottable_quote (hd : d.Legible) (ht : t.dialect = d) (v : String) :
    Dottable d (t.quote v) (.quotedName, v) := by
  refine ⟨fun h hh => isToken_quotedName hd ht v ?_, fun c hc => ?_⟩
  · rintro rfl
    have := hd.closes
    simp only [wordEnds, List.mem_cons, Option.some.injEq, reduceCtorEq, List.not_mem_nil,
      or_false, false_or] at hh
    simp only [List.mem_cons, List.not_mem_nil, or_false, not_or] at this
    tauto
  · subst ht
    obtain rfl : t.dialect.writing.nameQuote.1 = c := by simpa [Target.quote] using hc
    by_contra hdigit
    rw [Bool.not_eq_false] at hdigit
    refine hd.numbers (List.mem_append_right _ (List.mem_append_right _ ?_))
    exact Lexer.mem_digits_of_isDigit hdigit

/-- What needs no quotes is a bare word that is not reserved. -/
theorem needsQuotes_eq_false {w : String} (h : t.needsQuotes w = false) :
    t.dialect.isBare w = true ∧ t.dialect.lexical.isReserved w = false := by
  unfold Target.needsQuotes at h
  unfold Dialect.isBare
  cases hlist : w.toList with
  | nil =>
    rw [hlist] at h
    cases h
  | cons c cs =>
    simp only [hlist, Bool.or_eq_false_iff, Bool.not_eq_false'] at h
    exact ⟨Bool.and_eq_true_iff.mpr h.1, h.2⟩

theorem dottable_name (hd : d.Legible) (ht : t.dialect = d) (n : Name) :
    Dottable d (t.name n) (t.reread n).shape := by
  unfold Target.name Target.reread Name.shape
  split
  · exact dottable_quote hd ht n.text
  · next hq =>
    simp only [Bool.or_eq_true, not_or, Bool.not_eq_true] at hq
    obtain ⟨hbare, hfree⟩ := needsQuotes_eq_false hq.2
    have hword := dottable_bare (ht ▸ hd) hbare
    rw [Dialect.bare, Dialect.wordKind, hfree, ht] at hword
    exact hword

/-- A name that is read bare is not reserved. -/
theorem reread_free (t : Target) (n : Name) :
    (t.reread n).quoted = true ∨ t.dialect.lexical.isReserved (t.reread n).text = false := by
  cases hq : (t.reread n).quoted with
  | true => exact .inl rfl
  | false =>
    simp only [Target.reread, Bool.or_eq_false_iff] at hq
    exact .inr (needsQuotes_eq_false hq.2).2

theorem name (hd : d.Legible) (ht : t.dialect = d) (n : Name) :
    Spelled d (t.name n) [(t.reread n).shape] :=
  (dottable_name hd ht n).spelled

theorem spells_dots (hd : d.Legible) {ws : List String} {ss : List Shape}
    (h : List.Forall₂ (Dottable d) ws ss) {b : Option Char} (hb : b ∈ wordEnds) :
    Spells d b (String.intercalate "." ws).toList (betweenDots ss) := by
  induction h with
  | nil => exact .nil
  | @cons w s ws ss hw hrest ih =>
    cases hrest with
    | nil => exact Spells.single (hw.token b hb)
    | @cons v u ws ss hv hmore =>
      obtain ⟨c, cs, -, hlist, -⟩ := (hv.token none (by decide)).reads [] rfl
      have hhead : (String.intercalate "." (v :: ws)).toList.head? = some c := by
        cases ws <;> simp [hlist]
      have hdot : IsToken d (some c) ['.'] (.mark ".") :=
        isToken_dot hd fun x hx => hv.starts x (by simpa [hlist] using hx)
      rw [String.intercalate_cons_cons, String.append_assoc, String.toList_append,
        String.toList_append]
      exact .token (hw.token (some '.') (by decide)) (.token (by rwa [hhead]) ih)

theorem spells_path (hd : d.Legible) (ht : t.dialect = d) (ns : List Name) {b : Option Char}
    (hb : b ∈ wordEnds) : Spells d b (t.path ns).toList (betweenDots ((ns.map t.reread).map Name.shape)) := by
  refine spells_dots hd ?_ hb
  induction ns with
  | nil => exact .nil
  | cons n ns ih => exact .cons (dottable_name hd ht n) ih

theorem path (hd : d.Legible) (ht : t.dialect = d) (ns : List Name) :
    Spelled d (t.path ns) (betweenDots ((ns.map t.reread).map Name.shape)) :=
  fun _ hh => spells_path hd ht ns (closers_subset_wordEnds hh)

theorem names (hd : d.Legible) (ht : t.dialect = d) (ns : List Name) :
    Spelled d (t.names ns) (betweenCommas ((ns.map t.reread).map fun n => [n.shape])) := by
  refine commaList hd (by simp [listGaps]) ?_
  induction ns with
  | nil => exact .nil
  | cons n ns ih => exact .cons (name hd ht n) ih

end Spelled

end SqlDialects
