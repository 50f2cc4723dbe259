import SqlDialects.Grammar.Query
import SqlDialects.Proofs.Phrases

/-!
# What a parser reads from tokens

* `At` : a cursor before the given tokens;
* `ReadsOr` : a parser that reads a value from tokens and leaves others, or fails with one of the
  given faults;
* `Lapses` : the faults that are given, by the depth at which a parser starts;
* `Parses`, `ReadsWith`, `Reads` : the case that it may find tokens nested too deep, that it does so only where
  fewer levels are left than it needs, and that it cannot fail;
* one rule for each way in which the grammar looks at tokens: `ReadsOr.eatWord`, `ReadsOr.peek`, ...;
* `ReadsOr.many`, `ReadsOr.iterate` : repetition, which never runs out of steps;
* `Refuses` : a parser that fails before the given tokens.

Only the kinds and the texts of tokens matter. Where they stand is told in faults alone.
-/

namespace SqlDialects

/-! ## Shapes -/

namespace Shape

/-- The end of a text. -/
def finish : Shape := (.finish, "")

/-- A token of the given shape. -/
def token (s : Shape) : Token := ⟨s.1, s.2, .start, false⟩

/-- Whether a token is the bare word `word`, in any case. -/
def isWord (s : Shape) (word : String) : Bool := s.token.isWord word

/-- Whether a token is the operator or the punctuation mark `symbol`. -/
def isSymbol (s : Shape) (symbol : String) : Bool := s.token.isSymbol symbol

/-- Whether a token can name something. -/
def isName (s : Shape) : Bool := s.token.isName

@[simp] theorem isWord_bare (d : Dialect) (w word : String) :
    isWord (d.bare w) word = Text.sameWord w word := by
  unfold isWord Dialect.bare Dialect.wordKind
  split <;> rfl

@[simp] theorem isSymbol_bare (d : Dialect) (w symbol : String) :
    isSymbol (d.bare w) symbol = false := by
  unfold isSymbol Dialect.bare Dialect.wordKind
  split <;> rfl

@[simp] theorem isWord_mark (s word : String) : isWord (.mark s) word = false := rfl

@[simp] theorem isSymbol_mark (s symbol : String) : isSymbol (.mark s) symbol = (s == symbol) := rfl

@[simp] theorem isName_mark (s : String) : isName (.mark s) = false := rfl

@[simp] theorem isWord_finish (word : String) : isWord finish word = false := rfl

@[simp] theorem isSymbol_finish (symbol : String) : isSymbol finish symbol = false := rfl

@[simp] theorem isName_finish : isName finish = false := rfl

end Shape

@[simp] theorem Token.isWord_shape (t : Token) (word : String) :
    t.shape.isWord word = t.isWord word := rfl

@[simp] theorem Token.isSymbol_shape (t : Token) (symbol : String) :
    t.shape.isSymbol symbol = t.isSymbol symbol := rfl

@[simp] theorem Token.isName_shape (t : Token) : t.shape.isName = t.isName := rfl

/-- The token `n` places behind the first of `ts`, or the end. -/
def nthShape (ts : List Shape) (n : Nat) : Shape := ts.getD n .finish

/-- The first of the tokens `ts`, or the end. -/
def headShape (ts : List Shape) : Shape := nthShape ts 0

@[simp] theorem headShape_nil : headShape [] = .finish := rfl

@[simp] theorem headShape_cons (s : Shape) (ts : List Shape) : headShape (s :: ts) = s := rfl

@[simp] theorem nthShape_zero (s : Shape) (ts : List Shape) : nthShape (s :: ts) 0 = s := rfl

@[simp] theorem nthShape_succ (s : Shape) (ts : List Shape) (n : Nat) :
    nthShape (s :: ts) (n + 1) = nthShape ts n := rfl

/-! ## Parsers -/

/-- The cursor `c` stands before the tokens `ts`. -/
structure At (d : Dialect) (ts : List Shape) (i : Input) (c : Cursor) : Prop where
  dialect : i.dialect = d
  finish : i.finish.shape = .finish
  rest : (i.tokens.toList.drop c.index).map Token.shape = ts

theorem At.token {d : Dialect} {ts : List Shape} {i : Input} {c : Cursor} (h : At d ts i c)
    (n : Nat) : (i.token (c.index + n)).shape = nthShape ts n := by
  have hget : ts[n]? = (i.tokens[c.index + n]?).map Token.shape := by
    rw [← h.rest, List.getElem?_map, List.getElem?_drop, Array.getElem?_toList]
  unfold Input.token nthShape
  rw [List.getD_eq_getElem?_getD, hget]
  cases i.tokens[c.index + n]? with
  | none => exact h.finish
  | some t => rfl

theorem At.length {d : Dialect} {ts : List Shape} {i : Input} {c : Cursor} (h : At d ts i c) :
    i.tokens.size - c.index = ts.length := by
  rw [← h.rest]
  simp

/-- The fault of a text that nests too deep. -/
def Fault.TooDeep (f : Fault) : Prop :=
  ∃ p found, f = .unexpected p [s!"at most {Parser.maxDepth} levels of nesting"] found

/-- The faults that a parser may fail with, by the depth at which it starts. -/
abbrev Lapses : Type := Nat → Fault → Prop

/-- Tokens that nest too deep. -/
def Lapses.deep : Lapses := fun _ f => f.TooDeep

/-- Any fault, where fewer than `n` levels of nesting are left. -/
def Lapses.short (n : Nat) : Lapses := fun depth _ => Parser.maxDepth < depth + n

/-- The faults of a parser one level down: those of `F` there, and that there is no such level. -/
def Lapses.below (F : Lapses) : Lapses := fun depth f => Parser.maxDepth ≤ depth ∧ f.TooDeep ∨ F (depth + 1) f

/-- The limit of nesting is one of the faults. -/
def Lapses.Limited (F : Lapses) : Prop := ∀ depth f, Parser.maxDepth ≤ depth → f.TooDeep → F depth f

theorem Lapses.limited_short (n : Nat) : (short (n + 1)).Limited := by
  intro depth f hdepth _
  unfold short
  omega

/-- The parser `p` reads `a` from the tokens `ts` and leaves `us`, or fails with one of the faults
`F`. -/
def ReadsOr {α : Type} (F : Lapses) (d : Dialect) (p : Parser α) (ts : List Shape) (a : α)
    (us : List Shape) : Prop :=
  ∀ i c, At d ts i c →
    (∃ c', p i c = (.ok a, c') ∧ At d us i c') ∨ ∃ f c', p i c = (.error f, c') ∧ F c.depth f

/-- The parser `p` reads `a` from the tokens `ts` and leaves `us`, or finds that they nest too
deep. -/
abbrev Parses {α : Type} (d : Dialect) (p : Parser α) (ts : List Shape) (a : α)
    (us : List Shape) : Prop :=
  ReadsOr .deep d p ts a us

/-- The parser `p` reads `a` from the tokens `ts` and leaves `us`, where `n` levels of nesting are left. -/
abbrev ReadsWith {α : Type} (n : Nat) (d : Dialect) (p : Parser α) (ts : List Shape) (a : α) (us : List Shape) :
    Prop :=
  ReadsOr (.short n) d p ts a us

/-- The parser `p` reads `a` from the tokens `ts` and leaves `us`, whatever levels of nesting are
left. -/
abbrev Reads {α : Type} (d : Dialect) (p : Parser α) (ts : List Shape) (a : α) (us : List Shape) :
    Prop :=
  ReadsOr (fun _ _ => False) d p ts a us

theorem Parses.tooDeep {α : Type} {d : Dialect} {ts us : List Shape} {a : α} :
    Parses d (Parser.tooDeep : Parser α) ts a us := by
  intro i c _
  exact .inr ⟨_, c, rfl, _, _, rfl⟩

theorem reads_iff {α : Type} {d : Dialect} {p : Parser α} {ts us : List Shape} {a : α} :
    Reads d p ts a us ↔ ∀ i c, At d ts i c → ∃ c', p i c = (.ok a, c') ∧ At d us i c' := by
  simp [Reads, ReadsOr]

/-- Where enough levels are left, there is a result. -/
theorem ReadsWith.run {α : Type} {n : Nat} {d : Dialect} {p : Parser α} {ts us : List Shape} {a : α}
    (h : ReadsWith n d p ts a us) {i : Input} {c : Cursor} (hat : At d ts i c) (hroom : c.depth + n ≤ Parser.maxDepth) :
    ∃ c', p i c = (.ok a, c') ∧ At d us i c' := by
  rcases h i c hat with hread | ⟨f, c', -, hshort⟩
  · exact hread
  · exact absurd hshort (Nat.not_lt.mpr hroom)

namespace ReadsOr

variable {α β σ : Type} {F G : Lapses} {d : Dialect} {ts us vs : List Shape} {s : Shape} {a : α} {b : β}

theorem pure (a : α) : ReadsOr F d (pure a) ts a ts := fun _ c h => .inl ⟨c, rfl, h⟩

theorem bind {p : Parser α} {f : α → Parser β} {u : List Shape} (hp : ReadsOr F d p ts a u)
    (hf : ReadsOr F d (f a) u b vs) : ReadsOr F d (p >>= f) ts b vs := by
  intro i c h
  rcases hp i c h with ⟨c', heq, h'⟩ | ⟨e, c', heq, he⟩
  · rcases hf i c' h' with ⟨c'', heq', h''⟩ | ⟨e, c'', heq', he⟩
    · exact .inl ⟨c'', by simp only [Bind.bind, heq, heq'], h''⟩
    · rw [Parser.depth_of_run heq] at he
      exact .inr ⟨e, c'', by simp only [Bind.bind, heq, heq'], he⟩
  · exact .inr ⟨e, c', by simp only [Bind.bind, heq], he⟩

theorem mono {p : Parser α} (h : ReadsOr F d p ts a us) (hsub : ∀ depth f, F depth f → G depth f) :
    ReadsOr G d p ts a us :=
  fun i c hat => (h i c hat).imp_right fun ⟨f, c', heq, hf⟩ => ⟨f, c', heq, hsub _ f hf⟩

/-- What is read one level down is read where there is such a level. -/
theorem level {p : Parser α} (h : ReadsOr F d p ts a us) : ReadsOr F.below d (Parser.level p) ts a us := by
  intro i c hat
  cases hrun : Parser.level p i c with
  | mk r e =>
    rcases Parser.level_cases hrun with ⟨hdepth, hrefused⟩ | ⟨-, e, hinner, rfl⟩
    · obtain ⟨rfl, rfl⟩ := Prod.mk.inj hrefused
      exact .inr ⟨_, _, rfl, .inl ⟨hdepth, _, _, rfl⟩⟩
    · rcases h i c.down ⟨hat.dialect, hat.finish, hat.rest⟩ with ⟨c', heq, hat'⟩ | ⟨f, c', heq, hf⟩
      · obtain ⟨rfl, rfl⟩ := Prod.mk.inj (hinner.symm.trans heq)
        exact .inl ⟨_, rfl, hat'.dialect, hat'.finish, hat'.rest⟩
      · obtain ⟨rfl, rfl⟩ := Prod.mk.inj (hinner.symm.trans heq)
        exact .inr ⟨f, _, rfl, .inr hf⟩

/-- The name of a function that is read changes no place. -/
theorem nameFunction {f : Unit → Parser β} {ns : List Name} (hf : ReadsOr F d (f ()) ts b us) :
    ReadsOr F d (Parser.nameFunction ns >>= f) ts b us :=
  fun i c h => hf i { c with functions := ns :: c.functions } ⟨h.dialect, h.finish, h.rest⟩

theorem map {p : Parser α} (f : α → β) (hp : ReadsOr F d p ts a us) :
    ReadsOr F d (f <$> p) ts (f a) us :=
  hp.bind (pure (f a))

/-- A test that succeeds. -/
theorem yes {p : Parser Bool} {f g : Parser β} (hp : ReadsOr F d p ts true us)
    (hf : ReadsOr F d f us b vs) : ReadsOr F d (p >>= fun x => if x = true then f else g) ts b vs :=
  hp.bind hf

/-- A test that fails. -/
theorem no {p : Parser Bool} {f g : Parser β} (hp : ReadsOr F d p ts false us)
    (hg : ReadsOr F d g us b vs) : ReadsOr F d (p >>= fun x => if x = true then f else g) ts b vs :=
  hp.bind hg

/-! ### Looking at tokens -/

theorem dialect {f : Dialect → Parser β} (hf : ReadsOr F d (f d) ts b us) :
    ReadsOr F d (Parser.dialect >>= f) ts b us := by
  rintro i c ⟨rfl, hfinish, hrest⟩
  exact hf i c ⟨rfl, hfinish, hrest⟩

theorem rules {f : ReadingRules → Parser β} (hf : ReadsOr F d (f d.reading) ts b us) :
    ReadsOr F d (Parser.rules >>= f) ts b us := by
  rintro i c ⟨rfl, hfinish, hrest⟩
  exact hf i c ⟨rfl, hfinish, hrest⟩

theorem supports {x : Construct} {f : Bool → Parser β} (hf : ReadsOr F d (f (d.supports x)) ts b us) :
    ReadsOr F d (Parser.supports x >>= f) ts b us := by
  rintro i c ⟨rfl, hfinish, hrest⟩
  exact hf i c ⟨rfl, hfinish, hrest⟩

theorem remaining {f : Nat → Parser β} (hf : ReadsOr F d (f ts.length) ts b us) :
    ReadsOr F d (Parser.remaining >>= f) ts b us := by
  intro i c h
  have := hf i c h
  rwa [← h.length] at this

theorem peekNth {n : Nat} {f : Token → Parser β}
    (hf : ∀ t : Token, t.shape = nthShape ts n → ReadsOr F d (f t) ts b us) :
    ReadsOr F d (Parser.peekNth n >>= f) ts b us :=
  fun i c h => hf (i.token (c.index + n)) (h.token n) i c h

theorem peek {f : Token → Parser β}
    (hf : ∀ t : Token, t.shape = headShape ts → ReadsOr F d (f t) ts b us) :
    ReadsOr F d (Parser.peek >>= f) ts b us :=
  peekNth hf

theorem peekWord {word : String} {x : Bool} (h : (headShape ts).isWord word = x) :
    ReadsOr F d (Parser.peekWord word) ts x ts :=
  peek fun t ht => by
    rw [← h, ← ht]
    exact pure _

theorem peekSymbol {symbol : String} {x : Bool} (h : (headShape ts).isSymbol symbol = x) :
    ReadsOr F d (Parser.peekSymbol symbol) ts x ts :=
  peek fun t ht => by
    rw [← h, ← ht]
    exact pure _

theorem advance_at {i : Input} {c : Cursor} (h : At d (s :: ts) i c) :
    ∃ c' t, Parser.advance i c = (.ok t, c') ∧ t.shape = s ∧ At d ts i c' := by
  have hlt : c.index < i.tokens.size := by
    have := h.length
    simp only [List.length_cons] at this
    omega
  refine ⟨{ c with index := c.index + 1 }, i.token c.index, by simp [Parser.advance, hlt], ?_, ?_⟩
  · simpa using h.token 0
  · refine ⟨h.dialect, h.finish, ?_⟩
    have := congrArg List.tail h.rest
    simpa [← List.map_tail, List.tail_drop] using this

theorem advance {f : Token → Parser β} (hf : ∀ t : Token, t.shape = s → ReadsOr F d (f t) ts b us) :
    ReadsOr F d (Parser.advance >>= f) (s :: ts) b us := by
  intro i c h
  obtain ⟨c', t, heq, ht, h'⟩ := advance_at h
  rcases hf t ht i c' h' with ⟨c'', heq', h''⟩ | ⟨e, c'', heq', he⟩
  · exact .inl ⟨c'', by simp only [Bind.bind, heq, heq'], h''⟩
  · rw [Parser.depth_of_run heq] at he
    exact .inr ⟨e, c'', by simp only [Bind.bind, heq, heq'], he⟩

theorem atEnd : ReadsOr F d Parser.atEnd ts ts.isEmpty ts := by
  intro i c h
  refine .inl ⟨c, ?_, h⟩
  have := h.length
  cases ts with
  | nil =>
    simp only [List.length_nil] at this
    simp [Parser.atEnd, Parser.look]
    omega
  | cons s ts =>
    simp only [List.length_cons] at this
    simp [Parser.atEnd, Parser.look]
    omega

/-- A note changes no place. -/
theorem note {f : Unit → Parser β} {n : Nat} {what : String} (hf : ReadsOr F d (f ()) ts b us) :
    ReadsOr F d (Parser.expectNth n what >>= f) ts b us := by
  intro i c h
  have hdepth := (c.leads_note (c.index + n) what).depth
  have hnote := hf i (c.note (c.index + n) what) ⟨h.dialect, h.finish, ?_⟩
  · rwa [hdepth] at hnote
  rw [← h.rest]
  unfold Cursor.note
  split
  · rfl
  · split <;> rfl

/-! ### Words and symbols -/

theorem checkWord {word : String} {x : Bool} (h : (headShape ts).isWord word = x) :
    ReadsOr F d (Parser.checkWord word) ts x ts := by
  unfold Parser.checkWord
  cases x with
  | true => exact yes (peekWord h) (pure true)
  | false => exact no (peekWord h) (note (pure false))

theorem checkSymbol {symbol : String} {x : Bool} (h : (headShape ts).isSymbol symbol = x) :
    ReadsOr F d (Parser.checkSymbol symbol) ts x ts := by
  unfold Parser.checkSymbol
  cases x with
  | true => exact yes (peekSymbol h) (pure true)
  | false => exact no (peekSymbol h) (note (pure false))

theorem eatWord {word : String} (h : s.isWord word = true) :
    ReadsOr F d (Parser.eatWord word) (s :: ts) true ts :=
  yes (checkWord h) (advance fun _ _ => pure true)

theorem eatWord_no {word : String} (h : (headShape ts).isWord word = false) :
    ReadsOr F d (Parser.eatWord word) ts false ts :=
  no (checkWord h) (pure false)

theorem eatBare (d : Dialect) {w word : String} (h : Text.sameWord w word = true) :
    ReadsOr F d (Parser.eatWord word) (d.bare w :: ts) true ts :=
  eatWord ((Shape.isWord_bare d w word).trans h)

theorem eatBare_no (d : Dialect) {w word : String} (h : Text.sameWord w word = false) :
    ReadsOr F d (Parser.eatWord word) (d.bare w :: ts) false (d.bare w :: ts) :=
  eatWord_no ((Shape.isWord_bare d w word).trans h)

theorem expectWord {word : String} (h : s.isWord word = true) :
    ReadsOr F d (Parser.expectWord word) (s :: ts) () ts :=
  yes (eatWord h) (pure ())

theorem eatSymbol {symbol : String} (h : s.isSymbol symbol = true) :
    ReadsOr F d (Parser.eatSymbol symbol) (s :: ts) true ts :=
  yes (checkSymbol h) (advance fun _ _ => pure true)

theorem eatSymbol_no {symbol : String} (h : (headShape ts).isSymbol symbol = false) :
    ReadsOr F d (Parser.eatSymbol symbol) ts false ts :=
  no (checkSymbol h) (pure false)

theorem expectSymbol {symbol : String} (h : s.isSymbol symbol = true) :
    ReadsOr F d (Parser.expectSymbol symbol) (s :: ts) () ts :=
  yes (eatSymbol h) (pure ())

theorem onlyIf {condition : Bool} {p : Parser Bool} {x : Bool}
    (hp : condition = true → ReadsOr F d p ts x us) (hno : condition = false → x = false ∧ us = ts) :
    ReadsOr F d (Parser.onlyIf condition p) ts x us := by
  cases condition with
  | true => exact hp rfl
  | false =>
    obtain ⟨rfl, rfl⟩ := hno rfl
    exact pure false

/-- A test that is made. -/
theorem onlyIf_yes {condition : Bool} {p : Parser Bool} {x : Bool} (hcondition : condition = true)
    (hp : ReadsOr F d p ts x us) : ReadsOr F d (Parser.onlyIf condition p) ts x us :=
  onlyIf (fun _ => hp) fun hno => absurd hcondition (by simp [hno])

/-- A test that fails, made or not. -/
theorem onlyIf_no {condition : Bool} {p : Parser Bool} (hp : ReadsOr F d p ts false ts) :
    ReadsOr F d (Parser.onlyIf condition p) ts false ts :=
  onlyIf (fun _ => hp) fun _ => ⟨rfl, rfl⟩

/-- Whether the words `words` stand at the head of the tokens. -/
def wordsMatch : List Shape → List String → Bool
  | _, [] => true
  | ts, word :: words => (headShape ts).isWord word && wordsMatch ts.tail words

theorem headShape_drop (ts : List Shape) (n : Nat) : headShape (ts.drop n) = nthShape ts n := by
  simp [headShape, nthShape, List.getD_eq_getElem?_getD]

theorem missingWord {words : List String} (n : Nat) (h : wordsMatch (ts.drop n) words = true) :
    ReadsOr F d (Parser.missingWord n words) ts none ts := by
  induction words generalizing n with
  | nil => exact pure none
  | cons word words ih =>
    simp only [wordsMatch, Bool.and_eq_true, headShape_drop, List.tail_drop] at h
    refine peekNth fun t ht => ?_
    rw [← ht, Token.isWord_shape] at h
    rw [if_pos h.1]
    exact ih (n + 1) h.2

theorem missingWord_no {words : List String} (n : Nat)
    (h : wordsMatch (ts.drop n) words = false) :
    ∃ k word, ReadsOr F d (Parser.missingWord n words) ts (some (k, word)) ts := by
  induction words generalizing n with
  | nil => cases h
  | cons word words ih =>
    simp only [wordsMatch, Bool.and_eq_false_iff, headShape_drop, List.tail_drop] at h
    by_cases hword : (nthShape ts n).isWord word = true
    · obtain ⟨k, other, hmore⟩ := ih (n + 1) (by simpa [hword] using h)
      refine ⟨k, other, peekNth fun t ht => ?_⟩
      rw [← ht, Token.isWord_shape] at hword
      rwa [if_pos hword]
    · refine ⟨n, word, peekNth fun t ht => ?_⟩
      rw [← ht, Token.isWord_shape] at hword
      rw [if_neg hword]
      exact pure _

theorem times_advance {n : Nat} (hn : n ≤ ts.length) :
    ∀ i c, At d ts i c → ∃ xs c', Parser.times n Parser.advance i c = (.ok xs, c') ∧
      At d (ts.drop n) i c' := by
  induction n generalizing ts with
  | zero => exact fun i c h => ⟨[], c, rfl, h⟩
  | succ n ih =>
    intro i c h
    cases ts with
    | nil => simp at hn
    | cons s ts =>
      obtain ⟨c', t, heq, -, h'⟩ := advance_at h
      obtain ⟨xs, c'', heq', h''⟩ := ih (by simpa using hn) i c' h'
      refine ⟨t :: xs, c'', ?_, by simpa using h''⟩
      simp only [Parser.times, Bind.bind, heq, heq']
      rfl

theorem length_of_wordsMatch {words : List String} (h : wordsMatch ts words = true) :
    words.length ≤ ts.length := by
  induction words generalizing ts with
  | nil => simp
  | cons word words ih =>
    cases ts with
    | nil => simp [wordsMatch] at h
    | cons s ts =>
      simp only [wordsMatch, Bool.and_eq_true, List.tail_cons] at h
      simpa using ih h.2

theorem eatWords {words : List String} (h : wordsMatch ts words = true) :
    ReadsOr F d (Parser.eatWords words) ts true (ts.drop words.length) := by
  refine (missingWord 0 (by simpa using h)).bind fun i c hat => ?_
  obtain ⟨xs, c', heq, hat'⟩ := times_advance (length_of_wordsMatch h) i c hat
  exact .inl ⟨c', by simp only [Bind.bind, heq]; rfl, hat'⟩

theorem eatWords_no {words : List String} (h : wordsMatch ts words = false) :
    ReadsOr F d (Parser.eatWords words) ts false ts := by
  obtain ⟨k, word, hmissing⟩ := missingWord_no (d := d) 0 (by simpa using h)
  exact hmissing.bind (note (pure false))

/-! ### Optional parts and repetition -/

theorem optional {test : Parser Bool} {p : Parser α} (ht : ReadsOr F d test ts true us)
    (hp : ReadsOr F d p us a vs) : ReadsOr F d (Parser.optional test p) ts (some a) vs :=
  yes ht (hp.bind (pure (some a)))

theorem optional_no {test : Parser Bool} {p : Parser α} (ht : ReadsOr F d test ts false us) :
    ReadsOr F d (Parser.optional test p) ts none us :=
  no ht (pure none)

theorem optionalList {test : Parser Bool} {p : Parser (List α)} {as : List α}
    (ht : ReadsOr F d test ts true us) (hp : ReadsOr F d p us as vs) :
    ReadsOr F d (Parser.optionalList test p) ts as vs :=
  yes ht hp

theorem optionalList_no {test : Parser Bool} {p : Parser (List α)} (ht : ReadsOr F d test ts false us) :
    ReadsOr F d (Parser.optionalList test p) ts [] us :=
  no ht (pure [])

theorem parenthesized {p : Parser α} (hp : ReadsOr F d p ts a (.mark ")" :: us)) :
    ReadsOr F d (Parser.parenthesized p) (.mark "(" :: ts) a us := by
  refine (expectSymbol rfl).bind (hp.bind ?_)
  exact (expectSymbol rfl).bind (pure a)

/-- Any number of steps of `p` that is enough reads `as` from `ts` and leaves `us`. -/
def Repeats (F : Lapses) (d : Dialect) (p : Parser (Option α)) (ts : List Shape) (as : List α)
    (us : List Shape) : Prop :=
  ∀ k, ts.length < k → ReadsOr F d (Parser.manyUpTo p k) ts as us

theorem repeats_nil {p : Parser (Option α)} (h : ReadsOr F d p ts none us) : Repeats F d p ts [] us := by
  intro k hk
  cases k with
  | zero => cases hk
  | succ k => exact h.bind (pure [])

theorem repeats_cons {p : Parser (Option α)} {as : List α} (h : ReadsOr F d p ts (some a) us)
    (hlt : us.length < ts.length) (hrest : Repeats F d p us as vs) : Repeats F d p ts (a :: as) vs := by
  intro k hk
  cases k with
  | zero => cases hk
  | succ k => exact h.bind ((hrest k (by omega)).bind (pure (a :: as)))

theorem many {p : Parser (Option α)} {as : List α} (h : Repeats F d p ts as us) :
    ReadsOr F d (Parser.many p) ts as us :=
  remaining (h _ (Nat.lt_succ_self _))

theorem many_stop {p : Parser (Option α)} (h : ReadsOr F d p ts none us) :
    ReadsOr F d (Parser.many p) ts [] us :=
  many (repeats_nil h)

/-- Any number of steps from `x` that is enough leads to `r` and leaves `us`. -/
def Iterates (F : Lapses) (d : Dialect) (step : σ → Parser (Option σ)) (x : σ) (ts : List Shape) (r : σ)
    (us : List Shape) : Prop :=
  ∀ k, ts.length < k → ReadsOr F d (Parser.iterateUpTo step x k) ts r us

theorem iterates_stop {step : σ → Parser (Option σ)} {x : σ} (h : ReadsOr F d (step x) ts none us) :
    Iterates F d step x ts x us := by
  intro k hk
  cases k with
  | zero => cases hk
  | succ k => exact h.bind (pure x)

theorem iterates_step {step : σ → Parser (Option σ)} {x y r : σ}
    (h : ReadsOr F d (step x) ts (some y) us) (hlt : us.length < ts.length)
    (hrest : Iterates F d step y us r vs) : Iterates F d step x ts r vs := by
  intro k hk
  cases k with
  | zero => cases hk
  | succ k => exact h.bind (hrest k (by omega))

theorem iterate {step : σ → Parser (Option σ)} {x r : σ} (h : Iterates F d step x ts r us) :
    ReadsOr F d (Parser.iterate step x) ts r us :=
  remaining (h _ (Nat.lt_succ_self _))

theorem iterate_stop {step : σ → Parser (Option σ)} {x : σ} (h : ReadsOr F d (step x) ts none us) :
    ReadsOr F d (Parser.iterate step x) ts x us :=
  iterate (iterates_stop h)

/-- The elements of a list behind commas. `E` holds of what may follow an element. -/
theorem afterCommas {p : Parser α} {E : List Shape → Prop} {tss : List (List Shape)}
    {as : List α} {rest : List Shape}
    (h : List.Forall₂ (fun ts a => ∀ us, E us → ReadsOr F d p (ts ++ us) a us) tss as)
    (hcomma : ∀ us, E (.mark "," :: us)) (hrest : E rest)
    (hstop : (headShape rest).isSymbol "," = false) :
    ReadsOr F d (Parser.afterCommas p) (behindCommas tss ++ rest) as rest := by
  refine many ?_
  induction h with
  | nil => exact repeats_nil (optional_no (eatSymbol_no hstop))
  | @cons ts a tss as ha htail ih =>
    have hnext : E (behindCommas tss ++ rest) := by
      cases htail with
      | nil => exact hrest
      | cons => exact hcomma _
    rw [behindCommas_cons, List.cons_append, List.append_assoc]
    refine repeats_cons (optional (eatSymbol rfl) (ha _ hnext)) ?_ ih
    simp only [List.length_cons, List.length_append]
    omega

/-- One or more elements with commas between them. -/
theorem commaSeparated {p : Parser α} {E : List Shape → Prop} {tss : List (List Shape)}
    {as : List α} {rest : List Shape} (hne : as ≠ [])
    (h : List.Forall₂ (fun ts a => ∀ us, E us → ReadsOr F d p (ts ++ us) a us) tss as)
    (hcomma : ∀ us, E (.mark "," :: us)) (hrest : E rest)
    (hstop : (headShape rest).isSymbol "," = false) :
    ReadsOr F d (Parser.commaSeparated p) (betweenCommas tss ++ rest) as rest := by
  cases h with
  | nil => exact absurd rfl hne
  | @cons ts a tss as ha htail =>
    have hnext : E (behindCommas tss ++ rest) := by
      cases htail with
      | nil => exact hrest
      | cons => exact hcomma _
    rw [betweenCommas, List.append_assoc]
    exact (ha _ hnext).bind ((afterCommas htail hcomma hrest hstop).bind (pure (a :: as)))

/-! ### Names -/

theorem name (n : Name) : ReadsOr F d Parser.name (n.shape :: ts) n ts := by
  refine peek fun t ht => ?_
  obtain ⟨text, quoted⟩ := n
  cases quoted with
  | false =>
    obtain ⟨hkind, htext⟩ := Prod.ext_iff.mp ht
    simp only [Token.shape, headShape_cons, Name.shape] at hkind htext
    simp [Token.isName, hkind, htext]
    exact advance fun _ _ => pure _
  | true =>
    obtain ⟨hkind, htext⟩ := Prod.ext_iff.mp ht
    simp only [Token.shape, headShape_cons, Name.shape] at hkind htext
    simp only [Token.isName, hkind, htext, if_true]
    exact advance fun _ _ => pure _

theorem dottedParts {ns : List Name} (hstop : (headShape ts).isSymbol "." = false) :
    ReadsOr F d (Parser.many Parser.dottedPart) (behindDots (ns.map Name.shape) ++ ts) ns ts := by
  refine many ?_
  induction ns with
  | nil => exact repeats_nil (no (peekSymbol hstop) (pure none))
  | cons n ns ih =>
    rw [List.map_cons, behindDots_cons, List.cons_append, List.cons_append]
    refine repeats_cons (yes (peekSymbol rfl) (advance fun _ _ => (name n).bind (pure (some n)))) ?_ ih
    simp only [List.length_cons]
    omega

theorem qualifiedName {ns : List Name} (hne : ns ≠ [])
    (hstop : (headShape ts).isSymbol "." = false) :
    ReadsOr F d Parser.qualifiedName (betweenDots (ns.map Name.shape) ++ ts) ns ts := by
  cases ns with
  | nil => exact absurd rfl hne
  | cons n ns => exact (name n).bind ((dottedParts hstop).bind (pure (n :: ns)))

theorem nameList {ns : List Name} (hne : ns ≠ []) :
    ReadsOr F d Parser.nameList (inParens (betweenCommas (ns.map fun n => [n.shape])) ++ ts) ns ts := by
  rw [inParens, List.cons_append, List.append_assoc, List.singleton_append]
  refine parenthesized (commaSeparated (E := fun _ => True) hne ?_ (fun _ => trivial) trivial rfl)
  clear hne
  induction ns with
  | nil => exact .nil
  | cons n ns ih => exact .cons (fun us _ => name n) ih

end ReadsOr

section Levels

variable {α : Type} {n : Nat} {d : Dialect} {p : Parser α} {ts us : List Shape} {a : α}

theorem Parses.level (h : Parses d p ts a us) : Parses d (Parser.level p) ts a us :=
  (ReadsOr.level h).mono fun _ _ hf => hf.elim And.right id

/-- What is read without a fault is read one level down, where there is such a level. -/
theorem Reads.level {F : Lapses} (hF : F.Limited) (h : Reads d p ts a us) : ReadsOr F d (Parser.level p) ts a us :=
  (ReadsOr.level h).mono fun depth f hf => hf.elim (fun hlimit => hF depth f hlimit.1 hlimit.2) False.elim

theorem ReadsWith.mono {m : Nat} (h : ReadsWith n d p ts a us) (hle : n ≤ m) : ReadsWith m d p ts a us := by
  refine ReadsOr.mono h fun depth f hf => ?_
  unfold Lapses.short at hf ⊢
  omega

theorem ReadsWith.level (h : ReadsWith n d p ts a us) : ReadsWith (n + 1) d (Parser.level p) ts a us := by
  refine (ReadsOr.level h).mono fun depth f hf => ?_
  unfold Lapses.below Lapses.short at hf
  unfold Lapses.short
  omega

end Levels

/-! ## Tokens that are refused -/

/-- The parser `p` fails before the tokens `ts`. -/
def Refuses {α : Type} (d : Dialect) (p : Parser α) (ts : List Shape) : Prop :=
  ∀ i c, At d ts i c → ∃ f c', p i c = (.error f, c')

namespace Refuses

variable {α β : Type} {F : Lapses} {d : Dialect} {p : Parser α} {ts us : List Shape} {a : α}

theorem unexpected : Refuses d (Parser.unexpected : Parser α) ts := fun _ _ _ => ⟨_, _, rfl⟩

/-- A note of what would be accepted, and the fault. -/
theorem noted {what : String} :
    Refuses d (Parser.expectHere what >>= fun _ => (Parser.unexpected : Parser α)) ts :=
  fun _ _ _ => ⟨_, _, rfl⟩

/-- What fails one level down fails, whether or not there is such a level. -/
theorem level (h : Refuses d p ts) : Refuses d (Parser.level p) ts := by
  intro i c hat
  by_cases hfull : Parser.maxDepth ≤ c.depth
  · exact ⟨_, c, if_pos hfull⟩
  · obtain ⟨fault, c', hp⟩ := h i c.down ⟨hat.dialect, hat.finish, hat.rest⟩
    exact ⟨fault, c'.up, Parser.level_of_lt (Nat.not_le.mp hfull) hp⟩

/-- What fails reads anything, as far as faults are left out. -/
theorem reads (h : Refuses d p ts) : ReadsOr (fun _ _ => True) d p ts a us := by
  intro i c hat
  obtain ⟨fault, c', hp⟩ := h i c hat
  exact .inr ⟨fault, c', hp, trivial⟩

/-- What would leave any tokens whatever reads nothing. -/
theorem of_reads (h : ∀ us, ReadsOr (fun _ _ => True) d p ts a us) : Refuses d p ts := by
  intro i c hat
  rcases h [] i c hat with ⟨c', hp, hnil⟩ | ⟨fault, c', hp, -⟩
  · rcases h [.finish] i c hat with ⟨c'', hp', hone⟩ | ⟨fault, c'', hp', -⟩
    · obtain rfl := congrArg Prod.snd (hp.symm.trans hp')
      exact absurd (hnil.rest.symm.trans hone.rest) (by simp)
    · exact ⟨fault, c'', hp'⟩
  · exact ⟨fault, c', hp⟩

/-- Nothing behind a fault is reached. -/
theorem before {f : α → Parser β} (h : Refuses d p ts) : Refuses d (p >>= f) ts := by
  intro i c hat
  obtain ⟨fault, c', hp⟩ := h i c hat
  exact ⟨fault, c', by simp only [Bind.bind, hp]⟩

/-- Nothing mends what fails behind what is read. -/
theorem after {f : α → Parser β} (hp : ReadsOr F d p ts a us) (h : Refuses d (f a) us) :
    Refuses d (p >>= f) ts := by
  intro i c hat
  rcases hp i c hat with ⟨c', hp, hat'⟩ | ⟨fault, c', hp, -⟩
  · obtain ⟨fault, c'', hf⟩ := h i c' hat'
    exact ⟨fault, c'', by simp only [Bind.bind, hp, hf]⟩
  · exact ⟨fault, c', by simp only [Bind.bind, hp]⟩

/-- A test that fails. -/
theorem no {p : Parser Bool} {f g : Parser β} (hp : ReadsOr F d p ts false us)
    (hg : Refuses d g us) : Refuses d (p >>= fun x => if x = true then f else g) ts :=
  after hp hg

theorem expectSymbol {symbol : String} (h : (headShape ts).isSymbol symbol = false) :
    Refuses d (Parser.expectSymbol symbol) ts :=
  after (F := fun _ _ => False) (.eatSymbol_no h) unexpected

end Refuses

end SqlDialects
