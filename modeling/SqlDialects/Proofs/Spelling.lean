import SqlDialects.Proofs.Layout
import SqlDialects.Proofs.Lexemes

/-!
# Texts and the tokens that they spell

* `Shape` : a token without its place;
* `IsToken` : a text that is one token before a given character, whatever follows;
* `IsRun` : a text without blanks that is cut into tokens before a given character;
* `Spells` : a text that is cut into tokens and blanks, before a given character;
* `Spells.scan` : the scan of a text gives the tokens that it spells;
* `Spells.indent` : indentation changes blanks only;
* `isToken_word`, `isToken_number`, `isToken_string`, ... : the texts of the kinds of tokens.
-/

namespace SqlDialects

open Text

/-- A token without its place. -/
abbrev Shape := Token.Kind × String

/-- A token without its place. -/
def Token.shape (t : Token) : Shape := (t.kind, t.text)

/-- What is asked of a dialect so that its texts are read back token by token. -/
structure Dialect.Legible (d : Dialect) : Prop where
  plain : d.lexical.Plain
  quotes : d.lexical.quotesBy d.writing.nameQuote = true
  /-- The quote of names stands in no word. -/
  apart : Lexer.continuesWord d.lexical d.writing.nameQuote.1 = false
  /-- Operators have neither quotes nor line ends. -/
  operators : ∀ op ∈ d.lexical.operators, ∀ c ∈ op.toList,
    c ∉ ['\'', '\n', d.writing.nameQuote.1]
  /-- The quote of names is no mark and stands in no number. -/
  numbers : d.writing.nameQuote.1 ∉ ['(', ')', ',', ';'] ++ Lexer.numberChars
  /-- The quote of names does not follow a name. -/
  closes : d.writing.nameQuote.2 ∉ [' ', '\n', ',', ')', '(', '.']

theorem legible_of_mem_builtins {d : Dialect} (h : d ∈ Dialect.builtins) : d.Legible where
  plain := LexicalRules.plain_of_mem_builtins d h
  quotes := quotesBy_of_mem_builtins d h
  apart := by revert d; decide +kernel
  operators := by revert d; decide +kernel
  numbers := by revert d; decide +kernel
  closes := by revert d; decide +kernel

/-! ## Tokens -/

/-- The text `w`, before a text that starts with `h`, is the token `s`: it is read as this token, and
indentation does not look into it. -/
structure IsToken (d : Dialect) (h : Option Char) (w : List Char) (s : Shape) : Prop where
  reads : ∀ rest : List Char, rest.head? = h → ∃ (c : Char) (cs : List Char) (l : Lexeme),
    w = c :: cs ∧ Lexer.lexeme d.lexical c (cs ++ rest) = .ok l ∧ l.kind.isTrivia = false ∧
      l.extra = cs.length ∧ (l.kind, l.contents.getD (.ofList w)) = s
  keeps : ∀ (pad : List Char) (fresh : Bool) (rest : List Char), rest = [] ∨ rest.head? = h →
    Target.indentFrom pad d.writing.nameQuote none fresh (w ++ rest) =
      (if fresh then pad else []) ++ w ++
        Target.indentFrom pad d.writing.nameQuote none false rest

/-- A token starts with no blank. -/
theorem IsToken.starts {d : Dialect} {h : Option Char} {w : List Char} {s : Shape}
    (hw : IsToken d h w s) : ∃ c cs, w = c :: cs ∧ isBlank c = false := by
  obtain ⟨c, cs, l, rfl, hlex, htrivia, -⟩ := hw.reads h.toList (by cases h <;> rfl)
  refine ⟨c, cs, rfl, ?_⟩
  by_contra hb
  rw [Bool.not_eq_false] at hb
  rw [Lexer.lexeme_blank hb] at hlex
  obtain rfl := Except.ok.inj hlex
  cases htrivia

/-- The text `w`, before a text that starts with `h`, is cut into the tokens `ss` without a blank before
them, and indentation does not look into it. -/
structure IsRun (d : Dialect) (h : Option Char) (w : List Char) (ss : List Shape) : Prop where
  starts : ∃ c cs, w = c :: cs ∧ isBlank c = false
  reads : ∀ rest : List Char, rest.head? = h → ∀ (p : Position) (spaced : Bool),
    ∃ (q : Position) (later : Bool) (ts : List Token), ts.map Token.shape = ss ∧
      scanFrom d.lexical false p spaced (w ++ rest) =
        ⟨ts ++ (scanFrom d.lexical false q later rest).tokens,
          (scanFrom d.lexical false q later rest).stop⟩
  keeps : ∀ (pad : List Char) (fresh : Bool) (rest : List Char), rest = [] ∨ rest.head? = h →
    Target.indentFrom pad d.writing.nameQuote none fresh (w ++ rest) =
      (if fresh then pad else []) ++ w ++
        Target.indentFrom pad d.writing.nameQuote none false rest

theorem scanFrom_token {d : Dialect} {w rest : List Char} {s : Shape}
    (hw : IsToken d rest.head? w s) (p : Position) (spaced : Bool) :
    ∃ (q : Position) (t : Token), t.shape = s ∧ scanFrom d.lexical false p spaced (w ++ rest) =
      ⟨t :: (scanFrom d.lexical false q false rest).tokens,
        (scanFrom d.lexical false q false rest).stop⟩ := by
  obtain ⟨c, cs, l, rfl, hlex, htrivia, hextra, hshape⟩ := hw.reads rest rfl
  refine ⟨p.after (c :: cs), ⟨l.kind, l.contents.getD (.ofList (c :: cs)), p, spaced⟩, hshape, ?_⟩
  rw [List.cons_append, scanFrom, hlex]
  simp [htrivia, hextra]

/-- A token is a run of its own. -/
theorem IsToken.isRun {d : Dialect} {h : Option Char} {w : List Char} {s : Shape}
    (hw : IsToken d h w s) : IsRun d h w [s] := by
  refine ⟨hw.starts, ?_, hw.keeps⟩
  rintro rest rfl p spaced
  obtain ⟨q, t, hshape, hscan⟩ := scanFrom_token hw p spaced
  exact ⟨q, false, [t], by rw [List.map_singleton, hshape], hscan⟩

/-- The text `cs`, before a text that starts with `h`, is cut into the tokens `ts`. -/
inductive Spells (d : Dialect) (h : Option Char) : List Char → List Shape → Prop where
  | nil : Spells d h [] []
  | blank {c : Char} {cs : List Char} {ts : List Shape} (hc : c = ' ' ∨ c = '\n') :
    Spells d h cs ts → Spells d h (c :: cs) ts
  | run {w cs : List Char} {ss ts : List Shape} (hw : IsRun d (cs.head?.or h) w ss) :
    Spells d h cs ts → Spells d h (w ++ cs) (ss ++ ts)

namespace Spells

variable {d : Dialect} {h : Option Char} {cs ds : List Char} {ts us : List Shape}

theorem token {w cs : List Char} {s : Shape} {ts : List Shape} (hw : IsToken d (cs.head?.or h) w s)
    (hcs : Spells d h cs ts) : Spells d h (w ++ cs) (s :: ts) :=
  .run hw.isRun hcs

theorem singleRun {w : List Char} {ss : List Shape} (hw : IsRun d h w ss) : Spells d h w ss := by
  have hnil : IsRun d (([] : List Char).head?.or h) w ss := by simpa using hw
  simpa using Spells.run hnil .nil

theorem single {w : List Char} {s : Shape} (hw : IsToken d h w s) : Spells d h w [s] :=
  singleRun hw.isRun

theorem append (hcs : Spells d (ds.head?.or h) cs ts) (hds : Spells d h ds us) :
    Spells d h (cs ++ ds) (ts ++ us) := by
  induction hcs with
  | nil => exact hds
  | blank hc _ ih => exact .blank hc ih
  | @run w cs ss ts hw _ ih =>
    rw [List.append_assoc, List.append_assoc]
    refine .run ?_ ih
    cases cs with
    | nil => simpa using hw
    | cons c cs => simpa using hw

/-! ## Scanning -/

theorem isBlank_of_mem {c : Char} (hc : c = ' ' ∨ c = '\n') : isBlank c = true := by
  rcases hc with rfl | rfl <;> decide

theorem dropBlanks (hcs : Spells d none cs ts) : Spells d none (cs.dropWhile isBlank) ts := by
  induction hcs with
  | nil => exact .nil
  | blank hc _ ih => simpa [isBlank_of_mem hc] using ih
  | run hw hcs =>
    obtain ⟨c, tail, rfl, hc⟩ := hw.starts
    rw [List.cons_append, List.dropWhile_cons_of_neg (by simp [hc])]
    exact .run hw hcs

theorem drop_takeWhile_length (p : Char → Bool) (l : List Char) :
    l.drop (l.takeWhile p).length = l.dropWhile p := by
  induction l with
  | nil => rfl
  | cons x l ih => by_cases hx : p x = true <;> simp [hx, ih]

theorem scanFrom_blank (r : LexicalRules) {c : Char} (cs : List Char) (hc : isBlank c = true)
    (p : Position) (spaced : Bool) : ∃ q, scanFrom r false p spaced (c :: cs) =
      scanFrom r false q true (cs.dropWhile isBlank) := by
  refine ⟨p.after (c :: cs.take (cs.takeWhile isBlank).length), ?_⟩
  rw [scanFrom, Lexer.lexeme_blank hc]
  simp only [Token.Kind.isTrivia, Bool.not_false, Bool.and_self, if_true, drop_takeWhile_length]

/-- The scan of a text gives the tokens that it spells, and reaches its end. -/
theorem scan (hcs : Spells d none cs ts) (p : Position) (spaced : Bool) :
    (scanFrom d.lexical false p spaced cs).tokens.map Token.shape = ts ∧
      ∃ t, (scanFrom d.lexical false p spaced cs).stop = .ok t ∧ t.shape = (.finish, "") := by
  induction hn : cs.length using Nat.strongRecOn generalizing cs ts p spaced with
  | ind n ih =>
    cases hcs with
    | nil =>
      rw [scanFrom]
      exact ⟨rfl, _, rfl, rfl⟩
    | @blank c cs _ hc hcs =>
      obtain ⟨q, hq⟩ := scanFrom_blank d.lexical cs (isBlank_of_mem hc) p spaced
      rw [hq]
      refine ih _ ?_ hcs.dropBlanks q true rfl
      have := (List.dropWhile_suffix isBlank (l := cs)).length_le
      simp only [List.length_cons] at hn
      omega
    | @run w cs ss ts hw hcs =>
      have hpos : 0 < w.length := by
        obtain ⟨c, tail, rfl, -⟩ := hw.starts
        simp
      obtain ⟨q, later, us, hshapes, hscan⟩ := hw.reads cs (by simp) p spaced
      have hrest := ih cs.length (by simp only [List.length_append] at hn; omega) hcs q later rfl
      rw [hscan]
      exact ⟨by rw [List.map_append, hshapes, hrest.1], hrest.2⟩

/-! ## Indentation -/

theorem head?_indentFrom (pad : List Char) (q : Char × Char) (cs : List Char) :
    (Target.indentFrom pad q none false cs).head? = cs.head? := by
  cases cs with
  | nil => simp
  | cons c cs =>
    rw [Target.indentFrom.eq_def]
    simp only [Bool.false_and, Bool.false_eq_true, if_false, List.nil_append]
    split
    · rfl
    · split <;> rfl

theorem blanks {pad : List Char} (hpad : ∀ c ∈ pad, c = ' ') (hcs : Spells d h cs ts) :
    Spells d h (pad ++ cs) ts := by
  induction pad with
  | nil => exact hcs
  | cons c pad ih =>
    exact .blank (.inl (hpad c (by simp))) (ih fun x hx => hpad x (by simp [hx]))

theorem indentFrom (hd : d.Legible) {pad : List Char} (hpad : ∀ c ∈ pad, c = ' ')
    (hcs : Spells d h cs ts) (fresh : Bool) :
    Spells d h (Target.indentFrom pad d.writing.nameQuote none fresh cs) ts := by
  induction hcs generalizing fresh with
  | nil => simpa using Spells.nil
  | @blank c cs ts hc _ ih =>
    have hquote : c ≠ '\'' := by rcases hc with rfl | rfl <;> decide
    have hname : c ≠ d.writing.nameQuote.1 := by
      rintro rfl
      have := hd.quotes
      simp [LexicalRules.quotesBy, isBlank_of_mem hc] at this
    rw [Target.indentFrom_outside hquote hname]
    refine blanks ?_ (.blank hc (ih _))
    intro x hx
    unfold Target.lead at hx
    split at hx
    · exact hpad x hx
    · cases hx
  | @run w cs ss ts hw hcs ih =>
    have hrest : cs = [] ∨ cs.head? = cs.head?.or h := by
      cases cs with
      | nil => exact .inl rfl
      | cons c cs => exact .inr rfl
    rw [hw.keeps pad fresh cs hrest, List.append_assoc]
    have hblanks : ∀ c ∈ (if fresh then pad else []), c = ' ' := by
      intro c hc
      split at hc
      · exact hpad c hc
      · cases hc
    exact blanks hblanks (.run (by rwa [head?_indentFrom]) (ih false))

/-- Indentation changes blanks only. -/
theorem indent (hd : d.Legible) {t : Target} (ht : t.dialect = d) {s : String}
    (hs : Spells d h s.toList ts) : Spells d h (t.indent s).toList ts := by
  subst ht
  simp only [Target.indent, String.toList_ofList]
  exact hs.indentFrom hd (fun c hc => (List.mem_replicate.mp hc).2) true

end Spells

/-! ## Tokens by their kind -/

section Tokens

variable {d : Dialect} {h : Option Char}

/-- Indentation passes over characters that are no quotes and end no line. -/
theorem indentFrom_quiet {q : Char × Char} {w : List Char} (pad rest : List Char)
    (hw : ∀ c ∈ w, c ∉ ['\'', '\n', q.1]) (hne : w ≠ []) (fresh : Bool) :
    Target.indentFrom pad q none fresh (w ++ rest) =
      (if fresh then pad else []) ++ w ++ Target.indentFrom pad q none false rest := by
  induction w generalizing fresh with
  | nil => exact absurd rfl hne
  | cons c w ih =>
    have hc : c ≠ '\'' ∧ c ≠ '\n' ∧ c ≠ q.1 := by simpa using hw c (by simp)
    have htail : Target.indentFrom pad q none false (w ++ rest) =
        w ++ Target.indentFrom pad q none false rest := by
      cases w with
      | nil => rfl
      | cons x w => simpa using ih (fun y hy => hw y (by simp [hy])) (by simp) false
    rw [List.cons_append, Target.indentFrom_outside hc.1 hc.2.2,
      beq_eq_false_iff_ne.mpr hc.2.1, htail]
    simp [Target.lead, hc.2.1]

/-- The kind of a bare word. -/
def Dialect.wordKind (d : Dialect) (w : String) : Token.Kind :=
  if d.lexical.isReserved w then .keyword else .word

/-- A bare word as a token. -/
def Dialect.bare (d : Dialect) (w : String) : Shape := (d.wordKind w, w)

/-- Whether `w` is read as one bare word. -/
def Dialect.isBare (d : Dialect) (w : String) : Bool :=
  match w.toList with
  | [] => false
  | c :: cs => Lexer.startsWord d.lexical c && cs.all (Lexer.continuesWord d.lexical)

/-- The characters behind a word: those behind any token, and what may follow a name. -/
def wordEnds : List (Option Char) := [none, some ' ', some '\n', some ',', some ')', some '(', some '.']

/-- No character of a word is a quote or ends a line. -/
theorem quiet_of_word (hd : d.Legible) {c : Char} {cs : List Char}
    (hc : Lexer.startsWord d.lexical c = true)
    (hcs : ∀ x ∈ cs, Lexer.continuesWord d.lexical x = true) :
    ∀ x ∈ c :: cs, x ∉ ['\'', '\n', d.writing.nameQuote.1] := by
  have hquotes := hd.quotes
  simp only [LexicalRules.quotesBy, Bool.and_eq_true, beq_iff_eq] at hquotes
  have hstart : ∀ x ∈ d.lexical.openers, c ≠ x := by
    rintro x hx rfl
    exact Lexer.not_mem_openers hd.plain hc hx
  intro x hx
  simp only [List.mem_cons, List.not_mem_nil, or_false, not_or]
  rcases List.mem_cons.mp hx with rfl | hx
  · refine ⟨hstart _ ?_, ?_, hstart _ ?_⟩
    · simp [LexicalRules.openers, hd.plain.strings]
    · rintro rfl
      have := Lexer.isBlank_of_startsWord hd.plain hc
      revert this
      decide
    · have hmem := List.mem_of_find?_eq_some hquotes.2
      simp only [LexicalRules.openers, List.mem_append, List.mem_map]
      exact .inl (.inl (.inl (.inl (.inr ⟨_, hmem, rfl⟩))))
  · have hx := hcs x hx
    refine ⟨?_, ?_, ?_⟩
    · rintro rfl
      rw [hd.plain.ends '\'' (by decide)] at hx
      cases hx
    · rintro rfl
      rw [hd.plain.ends '\n' (by decide)] at hx
      cases hx
    · rintro rfl
      rw [hd.apart] at hx
      cases hx

theorem isToken_word (hd : d.Legible) {w : String} (hw : d.isBare w = true)
    (hh : h ∈ wordEnds) : IsToken d h w.toList (d.bare w) := by
  unfold Dialect.isBare at hw
  split at hw
  · cases hw
  · next c cs hlist =>
    simp only [Bool.and_eq_true, List.all_eq_true] at hw
    obtain ⟨hc, hcs⟩ := hw
    have hends : ∀ x ∈ h, Lexer.continuesWord d.lexical x = false := by
      intro x hx
      refine hd.plain.ends x ?_
      obtain rfl := hx
      simp only [wordEnds, List.mem_cons, Option.some.injEq, reduceCtorEq, List.not_mem_nil,
        or_false, false_or] at hh
      simp only [LexicalRules.enders, List.mem_cons]
      tauto
    have hnot : h ≠ some '\'' := by
      rintro rfl
      revert hh
      decide
    refine ⟨fun rest hrest => ⟨c, cs, ⟨d.wordKind w, cs.length, none⟩, hlist, ?_, ?_, rfl, ?_⟩,
      fun pad fresh rest hrest => ?_⟩
    · rw [Lexer.lexeme_word hd.plain hc hcs (by rwa [hrest]) (by rwa [hrest]), ← hlist,
        String.ofList_toList]
      rfl
    · simp only [Dialect.wordKind]
      split <;> rfl
    · simp [Dialect.bare]
    · rw [hlist]
      exact indentFrom_quiet pad rest (quiet_of_word hd hc hcs) (by simp) fresh

/-- The characters behind a token. -/
def closers : List (Option Char) := [none, some ' ', some '\n', some ',', some ')']

theorem isToken_punctuation (hd : d.Legible) {c : Char} (hc : c ∈ ['(', ')', ',', ';']) :
    IsToken d h [c] (.punctuation, String.ofList [c]) := by
  have hquiet : ∀ x ∈ [c], x ∉ ['\'', '\n', d.writing.nameQuote.1] := by
    intro x hx
    obtain rfl := List.mem_singleton.mp hx
    simp only [List.mem_cons, List.not_mem_nil, or_false, not_or]
    refine ⟨?_, ?_, ?_⟩
    · rintro rfl
      revert hc
      decide
    · rintro rfl
      revert hc
      decide
    · rintro rfl
      exact hd.numbers (List.mem_append_left _ hc)
  exact ⟨fun rest _ => ⟨c, [], _, rfl, Lexer.lexeme_punctuation hd.plain hc, rfl, rfl, rfl⟩,
    fun pad fresh rest _ => indentFrom_quiet pad rest hquiet (by simp) fresh⟩

theorem quiet_of_numberChars (hd : d.Legible) {w : List Char}
    (hw : ∀ c ∈ w, c ∈ Lexer.numberChars) :
    ∀ x ∈ w, x ∉ ['\'', '\n', d.writing.nameQuote.1] := by
  intro x hx
  have hmem := hw x hx
  simp only [List.mem_cons, List.not_mem_nil, or_false, not_or]
  refine ⟨?_, ?_, ?_⟩
  · rintro rfl
    revert hmem
    decide
  · rintro rfl
    revert hmem
    decide
  · rintro rfl
    exact hd.numbers (List.mem_append_right _ hmem)

theorem isToken_dot (hd : d.Legible) (hh : ∀ x ∈ h, x.isDigit = false) :
    IsToken d h ['.'] (.punctuation, ".") := by
  refine ⟨fun rest hrest => ⟨'.', [], ⟨.punctuation, 0, none⟩, rfl, ?_, rfl, rfl, rfl⟩,
    fun pad fresh rest _ => ?_⟩
  · exact Lexer.lexeme_dot hd.plain (by simpa [hrest] using hh)
  · exact indentFrom_quiet pad rest (quiet_of_numberChars hd (by simp [Lexer.numberChars]))
      (by simp) fresh

theorem isToken_number (hd : d.Legible) {w : String}
    (hw : Lexer.number w.toList = some w.toList.length) (hh : h ∈ closers) :
    IsToken d h w.toList (.number, w) := by
  cases hlist : w.toList with
  | nil =>
    rw [hlist] at hw
    cases hw
  | cons c cs =>
    have hends : ∀ x ∈ h, Lexer.continuesNumber x = false := by
      rintro x rfl
      simp only [closers, List.mem_cons, Option.some.injEq, reduceCtorEq, List.not_mem_nil,
        or_false, false_or] at hh
      rcases hh with rfl | rfl | rfl | rfl <;> decide
    rw [hlist, List.length_cons] at hw
    refine ⟨fun rest hrest => ⟨c, cs, ⟨.number, cs.length, none⟩, rfl, ?_, rfl, rfl, ?_⟩,
      fun pad fresh rest _ => ?_⟩
    · exact Lexer.lexeme_number hd.plain hw (by rwa [hrest])
    · simp [← hlist]
    · exact indentFrom_quiet pad rest (quiet_of_numberChars hd (Lexer.number_chars hw))
        (by simp) fresh

theorem isToken_operator (hd : d.Legible) {op : String}
    (hmark : ∀ c ∈ op.toList.head?, d.lexical.isMark c = true ∧ c ≠ '.')
    (hfirst : d.lexical.firstOperator op.toList h = some op)
    (hcomment : op.toList.take 2 ∉ [['-', '-'], ['/', '*']])
    (hdash : ¬(op = "-" ∧ h = some '-')) (hstar : ¬(op = "/" ∧ h = some '*')) :
    IsToken d h op.toList (.operator, op) := by
  have hop : op ∈ d.lexical.operators := List.mem_of_find?_eq_some hfirst
  cases hlist : op.toList with
  | nil =>
    have hempty : op = "" := by simpa using hlist
    have := List.find?_some hfirst
    simp [hempty] at this
  | cons c cs =>
    obtain ⟨hc, hdot⟩ := hmark c (by simp [hlist])
    have hone (x y : Char) (hsingle : ¬(op = String.ofList [x] ∧ h = some y))
        (hpair : op.toList.take 2 ≠ [x, y]) {rest : List Char} (hrest : rest.head? = h) :
        ¬(c = x ∧ (cs ++ rest).head? = some y) := by
      rintro ⟨rfl, hy⟩
      cases cs with
      | nil => exact hsingle ⟨by rw [← hlist, String.ofList_toList], by simpa [hrest] using hy⟩
      | cons z cs => exact hpair (by simpa [hlist] using hy)
    simp only [List.mem_cons, List.not_mem_nil, or_false, not_or] at hcomment
    refine ⟨fun rest hrest => ⟨c, cs, ⟨.operator, cs.length, none⟩, rfl, ?_, rfl, rfl, ?_⟩,
      fun pad fresh rest _ => ?_⟩
    · exact Lexer.lexeme_operator hc hlist (by rwa [hrest, ← hlist]) hdot
        (hone '-' '-' hdash hcomment.1 hrest) (hone '/' '*' hstar hcomment.2 hrest)
    · simp [← hlist]
    · exact indentFrom_quiet pad rest (by simpa [hlist] using hd.operators op hop) (by simp) fresh

/-- Indentation does not look into a quotation whose closing quotes are doubled. -/
theorem indentFrom_doubled {q : Char × Char} {close : Char} (pad : List Char) {rest : List Char}
    (v : List Char) (hrest : rest.head? ≠ some close) :
    Target.indentFrom pad q (some close) false (Target.doubled close v ++ close :: rest) =
      Target.doubled close v ++ close :: Target.indentFrom pad q none false rest := by
  induction v with
  | nil => simp [Target.doubled, Target.indentFrom_closing hrest]
  | cons x v ih =>
    rw [Lexer.doubled_cons]
    by_cases hx : x = close
    · subst hx
      simp [Target.indentFrom_doubled, ih]
    · simp [hx, Target.indentFrom_inside, ih]

theorem indentFrom_stringBody {q : Char × Char} {r : LexicalRules} (pad : List Char)
    {rest : List Char} (v : List Char) (hrest : rest.head? ≠ some '\'') :
    Target.indentFrom pad q (some '\'') false (Lexer.stringBody r v ++ '\'' :: rest) =
      Lexer.stringBody r v ++ '\'' :: Target.indentFrom pad q none false rest := by
  unfold Lexer.stringBody
  split
  · induction v with
    | nil => simp [Target.doubled, Target.indentFrom_closing hrest]
    | cons x v ih =>
      rw [Lexer.doubled_cons]
      by_cases hq : x = '\''
      · subst hq
        simp [Lexer.doubled_cons, Target.indentFrom_doubled, ih]
      · by_cases hb : x = '\\'
        · subst hb
          simp [Lexer.doubled_cons, Target.indentFrom_inside, ih]
        · simp [hq, hb, Lexer.doubled_cons, Target.indentFrom_inside, ih]
  · exact indentFrom_doubled pad v hrest

theorem isToken_string (hd : d.Legible) {t : Target} (ht : t.dialect = d) (v : String)
    (hh : h ≠ some '\'') : IsToken d h (t.string v).toList (.string, v) := by
  subst ht
  have hlist : (t.string v).toList =
      '\'' :: (Lexer.stringBody t.dialect.lexical v.toList ++ ['\'']) := by
    simp [Target.string, Lexer.stringBody]
  rw [hlist]
  refine ⟨fun rest hrest => ⟨_, _, ⟨.string,
    (Lexer.stringBody t.dialect.lexical v.toList).length + 1, some v⟩, rfl, ?_, rfl, ?_, rfl⟩,
    fun pad fresh rest hrest => ?_⟩
  · have := Lexer.lexeme_string hd.plain v.toList (hrest ▸ hh : rest.head? ≠ _)
    simpa using this
  · simp
  · have hne : rest.head? ≠ some '\'' := by
      rcases hrest with rfl | hrest
      · simp
      · rwa [hrest]
    have := indentFrom_stringBody (q := t.dialect.writing.nameQuote)
      (r := t.dialect.lexical) pad v.toList hne
    simp [Target.indentFrom_opening, Target.lead, this]

theorem isToken_quotedName (hd : d.Legible) {t : Target} (ht : t.dialect = d) (v : String)
    (hh : h ≠ some d.writing.nameQuote.2) : IsToken d h (t.quote v).toList (.quotedName, v) := by
  subst ht
  have hlist : (t.quote v).toList = t.dialect.writing.nameQuote.1 ::
      (Target.doubled t.dialect.writing.nameQuote.2 v.toList ++
        [t.dialect.writing.nameQuote.2]) := by
    simp [Target.quote]
  rw [hlist]
  refine ⟨fun rest hrest => ⟨_, _, ⟨.quotedName,
    (Target.doubled t.dialect.writing.nameQuote.2 v.toList).length + 1, some v⟩, rfl, ?_, rfl, ?_,
    rfl⟩, fun pad fresh rest hrest => ?_⟩
  · have := Lexer.lexeme_quotedName hd.quotes v.toList (hrest ▸ hh : rest.head? ≠ _)
    simpa using this
  · simp
  · have hne : rest.head? ≠ some t.dialect.writing.nameQuote.2 := by
      rcases hrest with rfl | hrest
      · simp
      · rwa [hrest]
    have hopen : t.dialect.writing.nameQuote.1 ≠ '\'' := by
      intro heq
      have hq := hd.quotes
      simp [LexicalRules.quotesBy, heq, hd.plain.strings] at hq
    have hline : t.dialect.writing.nameQuote.1 ≠ '\n' := by
      intro heq
      have hq := hd.quotes
      simp [LexicalRules.quotesBy, heq, show isBlank '\n' = true by decide] at hq
    have := indentFrom_doubled (q := t.dialect.writing.nameQuote) pad v.toList hne
    simp [Target.indentFrom_naming hopen, Target.lead, hline, this]

end Tokens

end SqlDialects
