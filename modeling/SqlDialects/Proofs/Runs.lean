import SqlDialects.Proofs.Coverage
import SqlDialects.Proofs.Phrases

/-!
# Texts without quotes

* `Lexer.isRun` : whether no blank, no comment and no quotation starts anywhere in a text;
* `Lexer.lexeme_run` : the token at the head of such a text is the same before every end of a token;
* `isRun_of_run` : so the whole text is cut into the same tokens there;
* `Lexer.isTame`, `spells_tame` : the same of runs with blanks between them;
* `isRun_of_continuesWord`, `isRun_of_digits` : runs of letters and of digits.

What follows a text matters to its last token only if it goes on with it. A closing parenthesis, a
comma and a blank go on with nothing, so it is enough to look at the text alone.
-/

namespace SqlDialects

open Text

/-- White space belongs to no number. -/
theorem Text.isBlank_eq_false_of_isNumeric {c : Char} (h : isNumeric c = true) :
    isBlank c = false := by
  have hshort : ∀ r ∈ blankRanges, r.2 < r.1 + 12 ∧ (r.2 < 48 ∨ 57 < r.1) := by decide
  have hapart : ∀ r ∈ blankRanges, ∀ k < 12, r.1 + k ≤ r.2 →
      numericRanges.covers (r.1 + k) = false := by
    decide +kernel
  by_contra hb
  rw [Bool.not_eq_false, isBlank, Ranges.covers_iff] at hb
  obtain ⟨r, hr, hlow, hhigh⟩ := hb
  obtain ⟨hwidth, hascii⟩ := hshort r hr
  unfold isNumeric at h
  split at h
  · simp only [Char.isDigit, Bool.and_eq_true, decide_eq_true_eq, ge_iff_le,
      UInt32.le_iff_toNat_le] at h
    have h48 : 48 ≤ c.toNat := h.1
    have h57 : c.toNat ≤ 57 := h.2
    omega
  · have := hapart r hr (c.toNat - r.1) (by omega) (by omega)
    rw [show r.1 + (c.toNat - r.1) = c.toNat by omega, h] at this
    cases this

/-- The characters before which a run is cut into the same tokens. -/
def runEnds : List (Option Char) := some '(' :: closers

theorem mem_runEnds_of_closers {h : Option Char} (hh : h ∈ closers) : h ∈ runEnds :=
  List.mem_cons_of_mem _ hh

theorem of_runEnds {p : Char → Prop} (hp : ∀ x ∈ [' ', '\n', ',', ')', '('], p x) {h : Option Char}
    (hh : h ∈ runEnds) : ∀ x ∈ h, p x := by
  rintro x rfl
  refine hp x ?_
  simp only [runEnds, closers, List.mem_cons, Option.some.injEq, reduceCtorEq, List.not_mem_nil,
    or_false, false_or] at hh ⊢
  tauto

namespace Lexer

/-- Whether a blank, a comment or a quotation starts at the head of `c :: cs`. -/
def opens (r : LexicalRules) (c : Char) (cs : List Char) : Bool :=
  isBlank c || (r.hashComments && c == '#') || (c == '-' && cs.head? == some '-') ||
    (c == '/' && cs.head? == some '*') || r.stringQuotes.contains c ||
    (r.nameQuotes.find? fun q => q.1 == c).isSome ||
    (c == '$' && r.dollarStrings && (dollarTag cs).isSome)

/-- Whether no blank, no comment and no quotation starts anywhere in a text. -/
def isRun (r : LexicalRules) : List Char → Bool
  | [] => true
  | c :: cs => !opens r c cs && isRun r cs

end Lexer

/-- What is asked of the rules besides. -/
structure LexicalRules.Parted (r : LexicalRules) : Prop where
  /-- No operator goes on with what ends a token. -/
  operators : ∀ op ∈ r.operators, ∀ x ∈ [' ', '\n', ',', ')', '('], x ∉ op.toList
  /-- What is a number is neither a quote nor the start of a comment. -/
  numerals : ∀ x ∈ ['#', '-', '/', '$'] ++ r.stringQuotes ++ r.nameQuotes.map Prod.fst,
    isNumeric x = false
  /-- The marks of parameters are no quotes. -/
  marks : ∀ x ∈ ['$', '@', ':', '?'], Lexer.opens r x [] = false

theorem parted_of_mem_builtins {d : Dialect} (h : d ∈ Dialect.builtins) : d.lexical.Parted where
  operators := by revert d; decide +kernel
  numerals := by revert d; decide +kernel
  marks := by revert d; decide +kernel

namespace Lexer

variable {r : LexicalRules} {c : Char} {cs rest : List Char}

/-! ## Lengths -/

theorem takeWhile_append_ends {p : Char → Bool} (h : ∀ x ∈ rest.head?, p x = false) :
    (cs ++ rest).takeWhile p = cs.takeWhile p := by
  induction cs with
  | nil =>
    cases rest with
    | nil => rfl
    | cons x rest => simp [h x rfl]
  | cons c cs ih => by_cases hc : p c = true <;> simp [hc, ih]

theorem paramName_append (h : rest.head? ∈ runEnds) : paramName (cs ++ rest) = paramName cs := by
  have hhead : (cs ++ rest).takeWhile (fun c => isAlphabetic c || c == '_' || c == '@') = _ :=
    takeWhile_append_ends (of_runEnds (by decide) h)
  have htail (ds : List Char) :
      (ds ++ rest).takeWhile (fun c => isAlphanumeric c || c == '_') = _ :=
    takeWhile_append_ends (of_runEnds (by decide) h)
  unfold paramName
  dsimp only
  rw [hhead, List.drop_append_of_le_length (List.takeWhile_prefix _).length_le, htail]

theorem paramName_le (cs : List Char) : paramName cs ≤ cs.length := by
  unfold paramName
  dsimp only
  split
  · exact Nat.zero_le _
  · have hhead := (List.takeWhile_prefix (l := cs)
      (fun c => isAlphabetic c || c == '_' || c == '@')).length_le
    have htail := (List.takeWhile_prefix (l := cs.drop (cs.takeWhile fun c =>
      isAlphabetic c || c == '_' || c == '@').length)
      (fun c => isAlphanumeric c || c == '_')).length_le
    rw [List.length_drop] at htail
    omega

theorem paramLength_append (mark : Char) (h : rest.head? ∈ runEnds) :
    paramLength mark (cs ++ rest) = paramLength mark cs := by
  unfold paramLength
  rw [digits_append (of_runEnds (by decide) h), paramName_append h]

theorem paramLength_le {mark : Char} {n : Nat} (h : paramLength mark cs = some n) : n ≤ cs.length := by
  have hdigits := digits_le_length cs
  have hname := paramName_le cs
  unfold paramLength at h
  dsimp only at h
  split at h
  · obtain rfl := Option.some.inj h
    exact hdigits
  all_goals grind

theorem exponent_append_ends (h : rest.head? ∈ runEnds) : exponent (cs ++ rest) = exponent cs := by
  have hdigit : ∀ x ∈ rest.head?, x.isDigit = false := of_runEnds (by decide) h
  match cs with
  | [] =>
    cases rest with
    | nil => rfl
    | cons x rest =>
      have hx : (x == 'e' || x == 'E') = false :=
        of_runEnds (p := fun x => (x == 'e' || x == 'E') = false) (by decide) h x rfl
      simp [exponent, hx]
  | [e] =>
    cases rest with
    | nil => rfl
    | cons x rest =>
      have hx : (x == '+' || x == '-') = false :=
        of_runEnds (p := fun x => (x == '+' || x == '-') = false) (by decide) h x rfl
      have hzero : digits (x :: rest) = 0 := by simp [digits, hdigit x rfl]
      simp [exponent, hx, hzero]
  | e :: s :: ds =>
    have hds : digits (ds ++ rest) = digits ds := digits_append hdigit
    have hsds : digits ((s :: ds) ++ rest) = digits (s :: ds) := digits_append hdigit
    rw [List.cons_append] at hsds
    simp only [List.cons_append, exponent, hds, hsds]

theorem number_append_ends (h : rest.head? ∈ runEnds) : number (cs ++ rest) = number cs := by
  unfold number
  rw [mantissa_append (of_runEnds (by decide) h)]
  cases hm : mantissa cs with
  | none => rfl
  | some n =>
    have hle := mantissa_le_length hm
    simp only [Option.map_some]
    rw [List.drop_append_of_le_length hle, exponent_append_ends h]

theorem exponent_le (cs : List Char) : exponent cs ≤ cs.length := by
  match cs with
  | [] => exact Nat.zero_le _
  | [e] => simp [exponent]
  | e :: s :: ds =>
    have hds := digits_le_length ds
    have hsds := digits_le_length (s :: ds)
    simp only [exponent, List.length_cons] at hsds ⊢
    grind

theorem number_le {n : Nat} (h : number cs = some n) : n ≤ cs.length := by
  unfold number at h
  obtain ⟨m, hm, rfl⟩ := Option.map_eq_some_iff.mp h
  have hle := mantissa_le_length hm
  have hexp := exponent_le (cs.drop m)
  rw [List.length_drop] at hexp
  omega

theorem dollarTag_append (hcs : dollarTag cs = none) (h : rest.head? ∈ runEnds) :
    dollarTag (cs ++ rest) = none := by
  have hdollar : rest.head? ≠ some '$' := by
    intro heq
    rw [heq] at h
    revert h
    decide
  match cs with
  | [] =>
    cases rest with
    | nil => rfl
    | cons x rest =>
      have hx : (isAlphabetic x || x == '_') = false :=
        of_runEnds (p := fun x => (isAlphabetic x || x == '_') = false) (by decide) h x rfl
      have hne : x ≠ '$' := by simpa using hdollar
      rw [List.nil_append, dollarTag.eq_def]
      simp [hx]
  | x :: cs =>
    have hne : x ≠ '$' := by
      rintro rfl
      cases hcs
    have hrun : ((x :: cs) ++ rest).takeWhile (fun d => isAlphanumeric d || d == '_') = _ :=
      takeWhile_append_ends (of_runEnds (by decide) h)
    rw [dollarTag.eq_def] at hcs
    rw [List.cons_append] at hrun ⊢
    rw [dollarTag.eq_def]
    simp only [hrun] at hcs ⊢
    split at hcs
    · next halpha =>
      rw [if_pos halpha, ← List.cons_append,
        List.drop_append_of_le_length (List.takeWhile_prefix _).length_le]
      split at hcs
      · cases hcs
      · next hno =>
        rw [if_neg]
        rw [List.head?_append]
        cases hdrop : ((x :: cs).drop ((x :: cs).takeWhile fun d => isAlphanumeric d || d == '_').length).head? with
        | none => simpa using hdollar
        | some y => simpa [hdrop] using hno
    · next halpha => rw [if_neg halpha]

theorem operator_append (hr : r.Parted) (h : rest.head? ∈ runEnds) :
    operator r c (cs ++ rest) = operator r c cs := by
  have hprefix : ∀ op ∈ r.operators, (op != "" && op.toList.isPrefixOf (c :: (cs ++ rest))) =
      (op != "" && op.toList.isPrefixOf (c :: cs)) := by
    intro op hop
    congr 1
    rw [Bool.eq_iff_iff, List.isPrefixOf_iff_prefix, List.isPrefixOf_iff_prefix]
    refine ⟨fun hpre => ?_, fun hpre => hpre.trans (List.prefix_append (c :: cs) rest)⟩
    rcases List.prefix_or_prefix_of_prefix hpre (List.prefix_append (c :: cs) rest) with hle | ⟨s, hs⟩
    · exact hle
    · cases s with
      | nil => exact ⟨[], by rw [← hs]; simp⟩
      | cons x s =>
        rw [← hs] at hpre
        obtain ⟨after, hafter⟩ := (List.prefix_append_right_inj (c :: cs)).mp hpre
        have hx : rest.head? = some x := by rw [← hafter]; rfl
        have hout := of_runEnds (p := fun x => x ∉ op.toList) (hr.operators op hop) h x hx
        exact absurd (hs ▸ by simp : x ∈ op.toList) hout
  unfold operator
  dsimp only
  rw [List.find?_congr hprefix]

/-! ## Tokens -/

theorem isRun_drop (n : Nat) (h : isRun r cs = true) : isRun r (cs.drop n) = true := by
  induction n generalizing cs with
  | zero => exact h
  | succ n ih =>
    cases cs with
    | nil => exact h
    | cons c cs =>
      rw [isRun, Bool.and_eq_true] at h
      exact ih h.2

theorem plain_append (hr : r.Plain) (hparted : r.Parted) (h : rest.head? ∈ runEnds) :
    plain r c (cs ++ rest) = plain r c cs := by
  have hcolon : ((cs ++ rest).head? == some ':') = (cs.head? == some ':') := by
    cases cs with
    | nil =>
      rw [List.nil_append, List.head?_nil]
      refine (beq_eq_false_iff_ne.mpr fun heq => ?_).trans (by decide)
      rw [heq] at h
      revert h
      decide
    | cons x cs => rfl
  have hparam : param r c (cs ++ rest) = param r c cs := by
    unfold param
    rw [hcolon, paramLength_append c h]
  have hword : word r c (cs ++ rest) = word r c cs := by
    unfold word
    have hends : ∀ x ∈ rest.head?, continuesWord r x = false :=
      of_runEnds (fun x hx => hr.ends x (by revert x; decide)) h
    rw [takeWhile_append_ends hends]
  unfold plain
  rw [hparam, hword, operator_append hparted h, ← List.cons_append, number_append_ends h]

/-- A token without quotes lies inside the text, is no trivia and stands for itself. -/
structure Within (cs : List Char) (l : Lexeme) : Prop where
  extra : l.extra ≤ cs.length
  kind : l.kind.isTrivia = false
  contents : l.contents = none

theorem within_plain : Within cs (plain r c cs) := by
  have hfound : ∀ l : Lexeme,
      (param r c cs <|> ((number (c :: cs)).map fun n => (⟨.number, n - 1, none⟩ : Lexeme)) <|>
        word r c cs <|> operator r c cs) = some l → Within cs l := by
    intro l hl
    simp only [Option.orElse_eq_orElse, Option.orElse_eq_or, Option.or_eq_some_iff] at hl
    rcases hl with hl | ⟨-, hl | ⟨-, hl | ⟨-, hl⟩⟩⟩
    · unfold param at hl
      split at hl
      · obtain ⟨n, hn, rfl⟩ := Option.map_eq_some_iff.mp hl
        exact ⟨paramLength_le hn, rfl, rfl⟩
      · cases hl
    · obtain ⟨n, hn, rfl⟩ := Option.map_eq_some_iff.mp hl
      have hle := number_le hn
      rw [List.length_cons] at hle
      exact ⟨show n - 1 ≤ cs.length by omega, rfl, rfl⟩
    · unfold word at hl
      split at hl
      · obtain rfl := Option.some.inj hl
        refine ⟨(List.takeWhile_prefix _).length_le, ?_, rfl⟩
        dsimp only
        split <;> rfl
      · cases hl
    · unfold operator at hl
      obtain ⟨op, hop, rfl⟩ := Option.map_eq_some_iff.mp hl
      have hpre := List.find?_some hop
      rw [Bool.and_eq_true, List.isPrefixOf_iff_prefix] at hpre
      have hle := hpre.2.length_le
      rw [List.length_cons] at hle
      exact ⟨show op.toList.length - 1 ≤ cs.length by omega, rfl, rfl⟩
  unfold plain
  cases hl : (param r c cs <|> ((number (c :: cs)).map fun n => (⟨.number, n - 1, none⟩ : Lexeme)) <|>
      word r c cs <|> operator r c cs) with
  | none =>
    refine ⟨Nat.zero_le _, ?_, rfl⟩
    simp only [Option.getD_none]
    split <;> rfl
  | some l => exact hfound l hl

/-- The token at the head of a run is the same before every end of a token. -/
theorem lexeme_run (hr : r.Plain) (hparted : r.Parted) (hrun : isRun r (c :: cs) = true)
    (h : rest.head? ∈ runEnds) : lexeme r c (cs ++ rest) = .ok (plain r c cs) := by
  rw [isRun, Bool.and_eq_true, Bool.not_eq_true'] at hrun
  obtain ⟨hopens, htail⟩ := hrun
  simp only [opens, Bool.or_eq_false_iff] at hopens
  obtain ⟨⟨⟨⟨⟨⟨hblank, hhash⟩, hdash⟩, hstar⟩, hstring⟩, hname⟩, hdollar⟩ := hopens
  -- a character behind the text goes on with neither mark of a comment
  have hhead (y : Char) (hy : some y ∉ runEnds) (heq : (cs ++ rest).head? = some y) :
      cs.head? = some y := by
    cases cs with
    | nil => exact absurd (by simpa using heq ▸ h) hy
    | cons x cs => exact heq
  have htrivia : trivia r c (cs ++ rest) = .ok none := by
    refine trivia_eq_none hblank hhash ?_ ?_
    · rintro ⟨rfl, heq⟩
      simp [hhead '-' (by decide) heq] at hdash
    · rintro ⟨rfl, heq⟩
      simp [hhead '*' (by decide) heq] at hstar
  have hnational : (cs ++ rest).head? ≠ some '\'' := by
    intro heq
    cases cs with
    | nil => exact absurd (by simpa using heq ▸ h : some '\'' ∈ runEnds) (by decide)
    | cons x cs =>
      obtain rfl : x = '\'' := by simpa using heq
      simp [isRun, opens, hr.strings] at htail
  have hquote : quotation r c (cs ++ rest) = none := by
    unfold quotation
    rw [beq_eq_false_iff_ne.mpr hnational, Bool.and_false, hstring,
      Option.isSome_eq_false_iff.mp hname |> Option.isNone_iff_eq_none.mp]
    simp only [Bool.false_eq_true, if_false]
    split
    · next hmark =>
      rw [hmark, Bool.true_and, Option.isSome_eq_false_iff, Option.isNone_iff_eq_none] at hdollar
      rw [dollarTag_append hdollar h]
      rfl
    · rfl
  simp [lexeme, htrivia, hquote, plain_append hr hparted h]

/-- The tokens of a run do not depend on what follows, nor on where it stands. -/
theorem scanFrom_run (hr : r.Plain) (hparted : r.Parted) {w : List Char} (hw : isRun r w = true)
    (h : rest.head? ∈ runEnds) (p p' : Position) (spaced spaced' : Bool) :
    ∃ (q : Position) (later : Bool) (ts : List Token),
      ts.map Token.shape = (scanFrom r false p' spaced' w).tokens.map Token.shape ∧
        scanFrom r false p spaced (w ++ rest) =
          ⟨ts ++ (scanFrom r false q later rest).tokens, (scanFrom r false q later rest).stop⟩ := by
  induction hn : w.length using Nat.strongRecOn generalizing w p p' spaced spaced' with
  | ind n ih =>
    cases w with
    | nil => exact ⟨p, spaced, [], by simp [scanFrom], rfl⟩
    | cons c cs =>
      have hwithin : Within cs (plain r c cs) := within_plain
      have halone : lexeme r c cs = .ok (plain r c cs) := by
        have hends : ([] : List Char).head? ∈ runEnds := by decide
        simpa using lexeme_run hr hparted hw hends
      have hbefore := lexeme_run hr hparted hw h
      generalize plain r c cs = l at hwithin halone hbefore
      have hdrop : isRun r (cs.drop l.extra) = true := by
        rw [isRun, Bool.and_eq_true] at hw
        exact isRun_drop _ hw.2
      obtain ⟨q, later, ts, hshapes, hscan⟩ := ih (cs.drop l.extra).length
        (by simp only [List.length_drop, List.length_cons] at hn ⊢; omega) hdrop
        (p.after (c :: cs.take l.extra)) (p'.after (c :: cs.take l.extra)) false false rfl
      refine ⟨q, later, ⟨l.kind, .ofList (c :: cs.take l.extra), p, spaced⟩ :: ts, ?_, ?_⟩
      · rw [scanFrom, halone]
        simp [hwithin.kind, hwithin.contents, hshapes, Token.shape]
      · rw [Position.after_cons] at hscan
        rw [List.cons_append, scanFrom, hbefore]
        simp [hwithin.kind, hwithin.contents, List.take_append_of_le_length hwithin.extra,
          List.drop_append_of_le_length hwithin.extra, hscan]

end Lexer

/-! ## Runs as texts -/

section Runs

variable {d : Dialect}

/-- No character of a run is a quote or ends a line. -/
theorem Lexer.quiet_of_run (hd : d.Legible) {w : List Char} (hw : Lexer.isRun d.lexical w = true) :
    ∀ x ∈ w, x ∉ ['\'', '\n', d.writing.nameQuote.1] := by
  have hquotes := hd.quotes
  simp only [LexicalRules.quotesBy, Bool.and_eq_true, beq_iff_eq] at hquotes
  induction w with
  | nil => simp
  | cons c cs ih =>
    rw [Lexer.isRun, Bool.and_eq_true, Bool.not_eq_true'] at hw
    refine List.forall_mem_cons.mpr ⟨?_, ih hw.2⟩
    have hopens := hw.1
    simp only [List.mem_cons, List.not_mem_nil, or_false, not_or]
    refine ⟨?_, ?_, ?_⟩
    · rintro rfl
      simp [Lexer.opens, hd.plain.strings] at hopens
    · rintro rfl
      simp [Lexer.opens, show isBlank '\n' = true by decide] at hopens
    · rintro rfl
      simp [Lexer.opens, hquotes.2] at hopens

/-- A run is cut into the same tokens before every end of a token. -/
theorem isRun_of_run (hd : d.Legible) (hparted : d.lexical.Parted) {w : List Char} (hne : w ≠ [])
    (hw : Lexer.isRun d.lexical w = true) : ∃ ss, ∀ h ∈ runEnds, IsRun d h w ss := by
  refine ⟨(scanFrom d.lexical false .start false w).tokens.map Token.shape, fun h hh => ⟨?_, ?_, ?_⟩⟩
  · cases w with
    | nil => exact absurd rfl hne
    | cons c cs =>
      rw [Lexer.isRun, Bool.and_eq_true, Bool.not_eq_true'] at hw
      have hopens := hw.1
      simp only [Lexer.opens, Bool.or_eq_false_iff] at hopens
      exact ⟨c, cs, rfl, hopens.1.1.1.1.1.1⟩
  · rintro rest rfl p spaced
    exact Lexer.scanFrom_run hd.plain hparted hw hh p .start spaced false
  · exact fun pad fresh rest _ => indentFrom_quiet pad rest (Lexer.quiet_of_run hd hw) hne fresh

/-- Whether a text is made of runs with blanks between them. -/
def Lexer.isTame (r : LexicalRules) (w : List Char) : Bool := (w.splitOn ' ').all (Lexer.isRun r)

theorem spells_run (hd : d.Legible) (hparted : d.lexical.Parted) {w : List Char}
    (hw : Lexer.isRun d.lexical w = true) : ∃ ts, ∀ h ∈ runEnds, Spells d h w ts := by
  by_cases hne : w = []
  · subst hne
    exact ⟨[], fun _ _ => .nil⟩
  · obtain ⟨ss, hss⟩ := isRun_of_run hd hparted hne hw
    exact ⟨ss, fun h hh => .singleRun (hss h hh)⟩

/-- A text without quotes and comments is cut into the same tokens before every end of a token. -/
theorem spells_tame (hd : d.Legible) (hparted : d.lexical.Parted) {w : List Char}
    (hw : Lexer.isTame d.lexical w = true) : ∃ ts, ∀ h ∈ runEnds, Spells d h w ts := by
  have hruns (runs : List (List Char)) (hall : ∀ run ∈ runs, Lexer.isRun d.lexical run = true) :
      ∃ ts, ∀ h ∈ runEnds, Spells d h ([' '].intercalate runs) ts := by
    induction runs with
    | nil => exact ⟨[], fun _ _ => .nil⟩
    | cons run runs ih =>
      obtain ⟨ts, hts⟩ := spells_run hd hparted (hall run (by simp))
      obtain ⟨us, hus⟩ := ih fun x hx => hall x (by simp [hx])
      cases runs with
      | nil => exact ⟨ts, by simpa using hts⟩
      | cons next runs =>
        refine ⟨ts ++ us, fun h hh => ?_⟩
        rw [List.intercalate_cons_cons, List.append_assoc]
        refine .append (hts _ ?_) (.blank (.inl rfl) (hus h hh))
        simp [runEnds, closers]
  have hsplit := hruns (w.splitOn ' ') (by simpa [Lexer.isTame] using hw)
  rwa [List.intercalate_splitOn] at hsplit

end Runs

/-! ## Words, numbers and marks -/

namespace Lexer

variable {r : LexicalRules} {c : Char} {cs : List Char}

/-- A character opens nothing if it is no blank, no quote and no start of a comment, and a dollar sign
only if no string follows it. -/
theorem opens_eq_false (hblank : isBlank c = false)
    (hother : c ∉ (if r.hashComments then ['#'] else []) ++ ['-', '/'] ++ r.stringQuotes ++
      r.nameQuotes.map Prod.fst)
    (hdollar : c = '$' → r.dollarStrings = true → dollarTag cs = none) : opens r c cs = false := by
  simp only [List.mem_append, List.mem_cons, List.not_mem_nil, or_false, not_or] at hother
  obtain ⟨⟨⟨hhash, hdash, hslash⟩, hstring⟩, hname⟩ := hother
  have hcomment : (r.hashComments && c == '#') = false := by
    cases hc : r.hashComments with
    | false => rfl
    | true => simpa [hc] using hhash
  have hfind : (r.nameQuotes.find? fun q => q.1 == c) = none := by
    rw [List.find?_eq_none]
    exact fun q hq heq => hname (beq_iff_eq.mp heq ▸ List.mem_map_of_mem hq)
  have htag : (c == '$' && r.dollarStrings && (dollarTag cs).isSome) = false := by
    by_cases hc : c = '$'
    · by_cases hs : r.dollarStrings = true
      · simp [hdollar hc hs]
      · simp [hs]
    · simp [hc]
  simp [opens, hblank, hcomment, hdash, hslash, hstring, hfind, htag]

theorem opens_of_startsWord (hr : r.Plain) (hc : startsWord r c = true) : opens r c cs = false := by
  have hopen : c ∉ r.openers := not_mem_openers hr hc
  simp only [LexicalRules.openers, List.mem_append, List.mem_cons, not_or] at hopen
  refine opens_eq_false (isBlank_of_startsWord hr hc) ?_ fun h => absurd h hopen.1.2.1
  simp only [List.mem_append, List.mem_cons, List.not_mem_nil, or_false, not_or]
  exact ⟨⟨⟨hopen.1.1.2, hopen.1.2.2.1, hopen.1.2.2.2.1⟩, hopen.1.1.1.1.1⟩, hopen.1.1.1.1.2⟩

theorem opens_of_isNumeric (hr : r.Parted) (hc : isNumeric c = true) : opens r c cs = false := by
  have hout : ∀ x ∈ ['#', '-', '/', '$'] ++ r.stringQuotes ++ r.nameQuotes.map Prod.fst, c ≠ x := by
    rintro x hx rfl
    rw [hr.numerals c hx] at hc
    cases hc
  refine opens_eq_false (isBlank_eq_false_of_isNumeric hc) (fun hmem => ?_)
    fun h => absurd h (hout '$' (by simp))
  refine hout c ?_ rfl
  simp only [List.mem_append, List.mem_cons, List.not_mem_nil, or_false] at hmem ⊢
  rcases hmem with ((hmem | hmem | hmem) | hmem) | hmem
  · split at hmem
    · exact .inl (.inl (.inl (List.mem_singleton.mp hmem)))
    · cases hmem
  all_goals tauto

/-- A mark of a parameter opens nothing, unless a string follows a dollar sign. -/
theorem opens_of_mark (hr : r.Parted) (hc : c ∈ ['$', '@', ':', '?'])
    (hdollar : c = '$' → r.dollarStrings = true → dollarTag cs = none) : opens r c cs = false := by
  have halone := hr.marks c hc
  have hne : c ≠ '-' ∧ c ≠ '/' := by
    constructor <;> rintro rfl <;> revert hc <;> decide
  simp only [opens, Bool.or_eq_false_iff] at halone ⊢
  obtain ⟨⟨⟨⟨⟨⟨hblank, hhash⟩, -⟩, -⟩, hstring⟩, hname⟩, -⟩ := halone
  refine ⟨⟨⟨⟨⟨⟨hblank, hhash⟩, ?_⟩, ?_⟩, hstring⟩, hname⟩, ?_⟩
  · simp [hne.1]
  · simp [hne.2]
  · by_cases hc : c = '$'
    · by_cases hs : r.dollarStrings = true
      · simp [hdollar hc hs]
      · simp [hs]
    · simp [hc]

/-- The tag of a string ends in a dollar sign. -/
theorem dollarTag_eq_none (h : '$' ∉ cs) : dollarTag cs = none := by
  rw [dollarTag.eq_def]
  split
  · simp at h
  · next x tail _ =>
    split
    · rw [if_neg]
      intro heq
      rw [beq_iff_eq] at heq
      exact h (List.mem_of_mem_drop (List.mem_of_head? heq))
    · rfl
  · rfl

/-- A word is a run where no string starts inside it. -/
theorem isRun_of_continuesWord (hr : r.Plain) (hparted : r.Parted)
    (hcs : ∀ x ∈ cs, continuesWord r x = true) (hdollar : r.dollarStrings = true → '$' ∉ cs) :
    isRun r cs = true := by
  induction cs with
  | nil => rfl
  | cons c cs ih =>
    have htail : r.dollarStrings = true → '$' ∉ cs := fun hs hmem => hdollar hs (by simp [hmem])
    rw [isRun, ih (fun x hx => hcs x (by simp [hx])) htail, Bool.and_true, Bool.not_eq_true']
    have hc := hcs c (by simp)
    by_cases hstart : startsWord r c = true
    · exact opens_of_startsWord hr hstart
    · simp only [startsWord, continuesWord, isAlphanumeric, Bool.or_eq_true, not_or] at hstart hc
      rcases hc with (((hc | hc) | hc) | hc) | hc
      · exact absurd hc hstart.1.1
      · exact opens_of_isNumeric hparted hc
      · exact absurd hc hstart.1.2
      · refine opens_of_mark hparted (by simp [beq_iff_eq.mp hc]) fun _ hs => ?_
        exact dollarTag_eq_none (htail hs)
      · exact absurd hc hstart.2

/-- A parameter is a run if its mark opens no string. -/
theorem isRun_marked (hparted : r.Parted) (hc : c ∈ ['$', '@', ':', '?']) (hcs : isRun r cs = true)
    (hdollar : r.dollarStrings = true → c = '$' → dollarTag cs = none) : isRun r (c :: cs) = true := by
  rw [isRun, hcs, Bool.and_true, Bool.not_eq_true']
  exact opens_of_mark hparted hc fun h hs => hdollar hs h

theorem opens_of_isFree (hfree : r.isFree c = true) (hne : c ≠ '-' ∧ c ≠ '/') :
    opens r c cs = false := by
  simp only [LexicalRules.isFree, Bool.and_eq_true, Bool.not_eq_true', bne_iff_ne, ne_eq] at hfree
  obtain ⟨⟨⟨⟨⟨⟨hblank, hhash⟩, hstring⟩, hname⟩, hdollar⟩, -⟩, -⟩ := hfree
  simp only [opens, Bool.or_eq_false_iff]
  refine ⟨⟨⟨⟨⟨⟨hblank, hhash⟩, ?_⟩, ?_⟩, hstring⟩, ?_⟩, ?_⟩
  · simp [hne.1]
  · simp [hne.2]
  · rwa [Option.isSome_eq_false_iff]
  · simp [hdollar]

theorem opens_of_number (hr : r.Plain) (hc : c ∈ '.' :: LexicalRules.decimalDigits) :
    opens r c cs = false := by
  refine opens_of_isFree (hr.numbers c hc) ?_
  constructor <;> rintro rfl <;> revert hc <;> decide

theorem opens_of_punctuation (hr : r.Plain) (hc : c ∈ ['(', ')', ',', ';', '.']) :
    opens r c cs = false := by
  have hmark := hr.punctuation c hc
  simp only [LexicalRules.isMark, Bool.and_eq_true] at hmark
  refine opens_of_isFree hmark.1.1 ?_
  constructor <;> rintro rfl <;> revert hc <;> decide

/-- Digits and points are a run. -/
theorem isRun_of_digits (hr : r.Plain) (hcs : ∀ x ∈ cs, (x.isDigit || x == '.') = true) :
    isRun r cs = true := by
  induction cs with
  | nil => rfl
  | cons c cs ih =>
    rw [isRun, ih fun x hx => hcs x (by simp [hx]), Bool.and_true, Bool.not_eq_true']
    refine opens_of_number hr ?_
    have hc := hcs c (by simp)
    rw [Bool.or_eq_true, beq_iff_eq] at hc
    rcases hc with hc | rfl
    · exact List.mem_cons_of_mem _ (mem_digits_of_isDigit hc)
    · exact List.mem_cons_self ..

end Lexer

end SqlDialects
