import SqlDialects.Grammar.Statement

/-!
# Reading a part of the tokens

* `Excerpt` : tokens that stand in a longer list, between places at which every production stops;
* `Excerpt.At` : a cursor in the list and a cursor in the part, at the same token of the part;
* `Mirrors` : a parser on the whole list and another on the part fail together, or have the same
  result and stop at the same token of the part;
* how the combinators and the small steps of the grammar keep this.

A parser never takes the token at which the part ends, since that is neither a word nor a symbol that
any production asks for. The bounds that keep repetition finite differ between the list and the part,
so each repeated step has to take a token.
-/

namespace SqlDialects

/-- Whether no production goes on at `t`. -/
def Token.isStop (t : Token) : Bool := t.kind == .finish || t.isSymbol ";"

namespace Token

variable {t : Token}

theorem kind_of_isStop (h : t.isStop = true) :
    t.kind = .finish ∨ (t.kind = .operator ∨ t.kind = .punctuation) ∧ t.text = ";" := by
  simp only [isStop, isSymbol, Bool.or_eq_true, beq_iff_eq] at h
  rcases h with h | h
  · exact .inl h
  · split at h
    case h_1 hk => exact .inr ⟨.inl hk, by simpa using h⟩
    case h_2 hk => exact .inr ⟨.inr hk, by simpa using h⟩
    case h_3 => cases h

theorem isBareWord_of_isStop (h : t.isStop = true) : t.isBareWord = false := by
  rcases kind_of_isStop h with hk | ⟨hk | hk, -⟩ <;> simp [isBareWord, hk]

theorem isName_of_isStop (h : t.isStop = true) : t.isName = false := by
  rcases kind_of_isStop h with hk | ⟨hk | hk, -⟩ <;> simp [isName, hk]

theorem isWord_of_isStop (h : t.isStop = true) (word : String) : t.isWord word = false := by
  rw [isWord, isBareWord_of_isStop h, Bool.false_and]

theorem isSymbol_of_isStop (h : t.isStop = true) {symbol : String} (hs : symbol ≠ ";") :
    t.isSymbol symbol = false := by
  have hne : ¬";" = symbol := fun he => hs he.symm
  rcases kind_of_isStop h with hk | ⟨hk | hk, htext⟩ <;> simp [isSymbol, *]

theorem isString_of_isStop (h : t.isStop = true) : (t.kind == .string) = false := by
  rcases kind_of_isStop h with hk | ⟨hk | hk, -⟩ <;> rw [hk] <;> rfl

/-- The same token, or two tokens at which every production stops. -/
def Alike (t u : Token) : Prop := t = u ∨ t.isStop = true ∧ u.isStop = true

namespace Alike

variable {u : Token}

theorem isWord (h : Alike t u) (word : String) : t.isWord word = u.isWord word := by
  rcases h with rfl | ⟨ht, hu⟩
  · rfl
  · rw [isWord_of_isStop ht, isWord_of_isStop hu]

theorem isSymbol (h : Alike t u) {symbol : String} (hs : symbol ≠ ";") :
    t.isSymbol symbol = u.isSymbol symbol := by
  rcases h with rfl | ⟨ht, hu⟩
  · rfl
  · rw [isSymbol_of_isStop ht hs, isSymbol_of_isStop hu hs]

theorem isName (h : Alike t u) : t.isName = u.isName := by
  rcases h with rfl | ⟨ht, hu⟩
  · rfl
  · rw [isName_of_isStop ht, isName_of_isStop hu]

theorem isString (h : Alike t u) : (t.kind == .string) = (u.kind == .string) := by
  rcases h with rfl | ⟨ht, hu⟩
  · rfl
  · rw [isString_of_isStop ht, isString_of_isStop hu]

end Alike

end Token

/-- A part of a list of tokens: `piece` stands in `whole` at `offset`, and productions stop behind it. -/
structure Excerpt where
  whole : Input
  piece : Input
  offset : Nat
  dialect : piece.dialect = whole.dialect
  /-- A semicolon joins no operands. -/
  semicolon : whole.dialect.reading.operator? ";" = none
  room : offset + piece.tokens.size ≤ whole.tokens.size
  inside : ∀ k < piece.tokens.size, whole.token (offset + k) = piece.token k
  behind : (whole.token (offset + piece.tokens.size)).isStop = true
  finish : piece.finish.isStop = true

namespace Excerpt

variable {x : Excerpt} {n : Nat} {c c' : Cursor}

/-- The cursor `c` in the whole list and `c'` in the part stand at the same token, with `n` tokens of
the part to go, have counted the same bare parameters, and are as deep as each other. -/
structure At (x : Excerpt) (n : Nat) (c c' : Cursor) : Prop where
  rest : c'.index + n = x.piece.tokens.size
  index : c.index = x.offset + c'.index
  binds : c.binds = c'.binds
  depth : c.depth = c'.depth

theorem At.token (h : x.At n c c') {k : Nat} (hk : k < n) :
    x.whole.token (c.index + k) = x.piece.token (c'.index + k) := by
  have hrest := h.rest
  rw [h.index, Nat.add_assoc]
  exact x.inside _ (by omega)

theorem At.stop (h : x.At n c c') :
    (x.whole.token (c.index + n)).isStop = true ∧ (x.piece.token (c'.index + n)).isStop = true := by
  have hpiece : x.piece.token x.piece.tokens.size = x.piece.finish := by simp [Input.token]
  rw [h.index, Nat.add_assoc, h.rest, hpiece]
  exact ⟨x.behind, x.finish⟩

/-- The tokens of an input as a part of themselves. -/
def ofInput (i : Input) (semicolon : i.dialect.reading.operator? ";" = none)
    (finish : i.finish.isStop = true) : Excerpt where
  whole := i
  piece := i
  offset := 0
  dialect := rfl
  semicolon := semicolon
  room := Nat.le_of_eq (Nat.zero_add _)
  inside k _ := by rw [Nat.zero_add]
  behind := by
    rw [Nat.zero_add, Input.token, Array.getElem?_eq_none (Nat.le_refl _)]
    exact finish
  finish := finish

end Excerpt

/-! ## The relation -/

/-- `p` fails everywhere. -/
def Fails {α : Type} (p : Parser α) : Prop := ∀ i c, ∃ f e, p i c = (.error f, e)

namespace Fails

variable {α β : Type}

theorem unexpected : Fails (Parser.unexpected : Parser α) := fun _ _ => ⟨_, _, rfl⟩

theorem unexpectedAt (t : Token) (what : String) : Fails (Parser.unexpectedAt t what : Parser α) :=
  fun _ _ => ⟨_, _, rfl⟩

theorem fail (f : Fault) : Fails (Parser.fail f : Parser α) := fun _ _ => ⟨_, _, rfl⟩

/-- Nothing mends what fails behind it. -/
theorem after {p : Parser α} {f : α → Parser β} (h : ∀ a, Fails (f a)) : Fails (p >>= f) := by
  intro i c
  cases hp : p i c with
  | mk r e =>
    cases r with
    | error y => exact ⟨y, e, by simp only [Bind.bind, hp]⟩
    | ok a =>
      obtain ⟨y, e', hf⟩ := h a i e
      exact ⟨y, e', by simp only [Bind.bind, hp, hf]⟩

/-- Nothing behind a fault is reached. -/
theorem before {p : Parser α} {f : α → Parser β} (h : Fails p) : Fails (p >>= f) := by
  intro i c
  obtain ⟨y, e, hp⟩ := h i c
  exact ⟨y, e, by simp only [Bind.bind, hp]⟩

end Fails

/-- With `n` tokens of the part to go, `p` on the whole list and `q` on the part fail together, or have
the same result `a` and stop at the same token; `Q m a` holds of it and of the `m` tokens that are left
then. -/
def Mirrors {α : Type} (x : Excerpt) (n : Nat) (p q : Parser α) (Q : Nat → α → Prop) : Prop :=
  ∀ c c', x.At n c c' →
    (∃ a m e e', p x.whole c = (.ok a, e) ∧ q x.piece c' = (.ok a, e') ∧ m ≤ n ∧ x.At m e e' ∧ Q m a) ∨
      ∃ f f' e e', p x.whole c = (.error f, e) ∧ q x.piece c' = (.error f', e')

/-- Nothing is said about the result. -/
def Any {α : Type} (_ : Nat) (_ : α) : Prop := True

/-- What a test that takes tokens leaves of `n` tokens. -/
def Takes (n m : Nat) (b : Bool) : Prop := if b then m < n else m = n

/-- What a test that only looks leaves of `n` tokens; it succeeds at no end. -/
def Looks (n m : Nat) (b : Bool) : Prop := m = n ∧ (b = true → 0 < n)

/-- What a step leaves of `n` tokens: it takes one if it gives a result. -/
def Steps {α : Type} (n m : Nat) (o : Option α) : Prop := o.isSome = true → m < n

namespace Mirrors

variable {α β σ : Type} {x : Excerpt} {n : Nat} {p q : Parser α} {f g : α → Parser β}
  {P Q : Nat → α → Prop} {S : Nat → β → Prop}

theorem pure {a : α} (h : Q n a) : Mirrors x n (Pure.pure a) (Pure.pure a) Q :=
  fun c c' hat => .inl ⟨a, n, c, c', rfl, rfl, Nat.le_refl n, hat, h⟩

theorem mono (h : Mirrors x n p q P) (hpq : ∀ m ≤ n, ∀ a, P m a → Q m a) : Mirrors x n p q Q := by
  intro c c' hat
  rcases h c c' hat with ⟨a, m, e, e', hp, hq, hm, hat', ha⟩ | hfail
  · exact .inl ⟨a, m, e, e', hp, hq, hm, hat', hpq m hm a ha⟩
  · exact .inr hfail

theorem any (h : Mirrors x n p q Q) : Mirrors x n p q Any :=
  h.mono fun _ _ _ _ => trivial

/-- What holds of the tokens that are left holds on the tokens themselves. -/
theorem leaves {i : Input} {semicolon : i.dialect.reading.operator? ";" = none}
    {finish : i.finish.isStop = true} (h : Mirrors (.ofInput i semicolon finish) n q q Q) {c e : Cursor}
    (hc : c.index + n = i.tokens.size) {a : α} (hrun : q i c = (.ok a, e)) :
    ∃ m ≤ n, e.index + m = i.tokens.size ∧ Q m a := by
  rcases h c c ⟨hc, (Nat.zero_add _).symm, rfl, rfl⟩ with
    ⟨b, m, d, d', hp, hq, hm, hat, hb⟩ | ⟨y, y', d, d', hp, hq⟩
  · obtain ⟨hab, rfl⟩ := Prod.mk.inj (hrun.symm.trans hq)
    obtain rfl := Except.ok.inj hab
    exact ⟨m, hm, hat.rest, hb⟩
  · cases hrun.symm.trans hq

theorem bind (hp : Mirrors x n p q P) (hf : ∀ m ≤ n, ∀ a, P m a → Mirrors x m (f a) (g a) S) :
    Mirrors x n (p >>= f) (q >>= g) S := by
  intro c c' hat
  rcases hp c c' hat with ⟨a, m, e, e', hp, hq, hm, hat', ha⟩ | ⟨y, y', e, e', hp, hq⟩
  · rcases hf m hm a ha e e' hat' with ⟨b, k, d, d', hp', hq', hk, hat'', hb⟩ | ⟨y, y', d, d', hp', hq'⟩
    · refine .inl ⟨b, k, d, d', ?_, ?_, Nat.le_trans hk hm, hat'', hb⟩
      · simp only [Bind.bind, hp, hp']
      · simp only [Bind.bind, hq, hq']
    · refine .inr ⟨y, y', d, d', ?_, ?_⟩
      · simp only [Bind.bind, hp, hp']
      · simp only [Bind.bind, hq, hq']
  · refine .inr ⟨y, y', e, e', ?_, ?_⟩
    · simp only [Bind.bind, hp]
    · simp only [Bind.bind, hq]

/-- How many tokens `p` takes does not matter for what follows. -/
theorem andThen (hp : Mirrors x n p q P) (hf : ∀ m a, Mirrors x m (f a) (g a) S) :
    Mirrors x n (p >>= f) (q >>= g) S :=
  hp.bind fun m _ a _ => hf m a

theorem map {h : α → β} (hp : Mirrors x n p q P) (hQ : ∀ m ≤ n, ∀ a, P m a → S m (h a)) :
    Mirrors x n (h <$> p) (h <$> q) S :=
  hp.bind fun m hm a ha => pure (hQ m hm a ha)

/-! ### Faults -/

theorem fails (hp : Fails p) (hq : Fails q) : Mirrors x n p q Q := by
  intro c c' _
  obtain ⟨y, e, hp⟩ := hp x.whole c
  obtain ⟨y', e', hq⟩ := hq x.piece c'
  exact .inr ⟨y, y', e, e', hp, hq⟩

/-! ### Looking at tokens -/

theorem of_run {p' q' : Parser α} (hp : ∀ c, p x.whole c = p' x.whole c)
    (hq : ∀ c, q x.piece c = q' x.piece c) (h : Mirrors x n p' q' Q) : Mirrors x n p q Q := by
  intro c c' hat
  rw [hp, hq]
  exact h c c' hat

theorem dialect {f g : Dialect → Parser β}
    (h : Mirrors x n (f x.whole.dialect) (g x.whole.dialect) S) :
    Mirrors x n (Parser.dialect >>= f) (Parser.dialect >>= g) S :=
  of_run (fun _ => rfl) (fun c => show g x.piece.dialect x.piece c = _ by rw [x.dialect]) h

theorem rules {f g : ReadingRules → Parser β}
    (h : Mirrors x n (f x.whole.dialect.reading) (g x.whole.dialect.reading) S) :
    Mirrors x n (Parser.rules >>= f) (Parser.rules >>= g) S :=
  of_run (fun _ => rfl) (fun c => show g x.piece.dialect.reading x.piece c = _ by rw [x.dialect]) h

theorem supports (y : Construct) {f g : Bool → Parser β} (h : ∀ b, Mirrors x n (f b) (g b) S) :
    Mirrors x n (Parser.supports y >>= f) (Parser.supports y >>= g) S :=
  of_run (fun _ => rfl)
    (fun c => show g (x.piece.dialect.supports y) x.piece c = _ by rw [x.dialect])
    (h (x.whole.dialect.supports y))

/-- The token `k` places on is the same inside the part, and both are stops where the part ends. What
stands behind that is not known. -/
theorem peekNth (k : Nat) {f g : Token → Parser β}
    (h : ∀ t u, (k ≤ n → t.Alike u) → (k = n → t.isStop = true) → Mirrors x n (f t) (g u) S) :
    Mirrors x n (Parser.peekNth k >>= f) (Parser.peekNth k >>= g) S := by
  intro c c' hat
  have hend (hk : k = n) : (x.whole.token (c.index + k)).isStop = true ∧
      (x.piece.token (c'.index + k)).isStop = true := by
    rw [hk]
    exact hat.stop
  refine h (x.whole.token (c.index + k)) (x.piece.token (c'.index + k)) (fun hk => ?_)
    (fun hk => (hend hk).1) c c' hat
  rcases Nat.lt_or_eq_of_le hk with hlt | heq
  · exact .inl (hat.token hlt)
  · exact .inr (hend heq)

/-- A test that fails where productions stop has the same result, and succeeds inside the part only. -/
theorem peekTest {k : Nat} (hk : k ≤ n) {test : Token → Bool} {f g : Token → Parser β}
    (htest : ∀ t u : Token, t.Alike u → test t = test u)
    (hstop : ∀ t : Token, t.isStop = true → test t = false)
    (h : ∀ t u b, test t = b → test u = b → (b = true → k < n) → Mirrors x n (f t) (g u) S) :
    Mirrors x n (Parser.peekNth k >>= f) (Parser.peekNth k >>= g) S := by
  refine peekNth k fun t u halike hend => ?_
  have hsame := htest t u (halike hk)
  refine h t u (test t) rfl hsame.symm fun ht => Nat.lt_of_le_of_ne hk fun heq => ?_
  rw [hstop t (hend heq)] at ht
  cases ht

theorem peek {f g : Token → Parser β} (h : 0 < n → ∀ t, Mirrors x n (f t) (g t) S)
    (hstop : n = 0 → ∀ t u, t.isStop = true → u.isStop = true → Mirrors x n (f t) (g u) S) :
    Mirrors x n (Parser.peek >>= f) (Parser.peek >>= g) S := by
  intro c c' hat
  cases n with
  | zero => exact hstop rfl _ _ hat.stop.1 hat.stop.2 c c' hat
  | succ n =>
    have hrun := h (Nat.succ_pos n) (x.whole.token (c.index + 0)) c c' hat
    rwa [show (Parser.peek >>= g) x.piece c' = g (x.whole.token (c.index + 0)) x.piece c' by
      rw [hat.token (Nat.succ_pos n)]
      rfl]

/-- Parsers that fail where productions stop. -/
theorem peekBoth {f g : Token → Parser β} (h : 0 < n → ∀ t, Mirrors x n (f t) (g t) S)
    (hf : ∀ t, t.isStop = true → Fails (f t)) (hg : ∀ t, t.isStop = true → Fails (g t)) :
    Mirrors x n (Parser.peek >>= f) (Parser.peek >>= g) S :=
  peek h fun _ t u ht hu => fails (hf t ht) (hg u hu)

theorem peekOrFail {f : Token → Parser β} (h : 0 < n → ∀ t, Mirrors x n (f t) (f t) S)
    (hf : ∀ t, t.isStop = true → Fails (f t)) :
    Mirrors x n (Parser.peek >>= f) (Parser.peek >>= f) S :=
  peekBoth h hf hf

theorem remaining {f g : Nat → Parser β}
    (h : ∀ r r', n ≤ r → n ≤ r' → Mirrors x n (f r) (g r') S) :
    Mirrors x n (Parser.remaining >>= f) (Parser.remaining >>= g) S := by
  intro c c' hat
  have hrest := hat.rest
  have hindex := hat.index
  have hroom := x.room
  exact h (x.whole.tokens.size - c.index) (x.piece.tokens.size - c'.index) (by omega) (by omega)
    c c' hat

/-- A token of the part is taken on both sides. -/
theorem advance (hn : 0 < n) : Mirrors x n Parser.advance Parser.advance fun m _ => m + 1 = n := by
  intro c c' hat
  have hrest := hat.rest
  have hindex := hat.index
  have hroom := x.room
  have hwhole : c.index < x.whole.tokens.size := by omega
  have hpiece : c'.index < x.piece.tokens.size := by omega
  refine .inl ⟨x.whole.token c.index, n - 1, { c with index := c.index + 1 },
    { c' with index := c'.index + 1 }, ?_, ?_, by omega, ⟨?_, ?_, hat.binds, hat.depth⟩, by omega⟩
  · simp [Parser.advance, hwhole]
  · have htoken := hat.token hn
    simp only [Nat.add_zero] at htoken
    simp [Parser.advance, hpiece, htoken]
  · simp only
    omega
  · simp only
    omega

theorem note (k : Nat) (what : String) :
    Mirrors x n (Parser.expectNth k what) (Parser.expectNth k what) fun m _ => m = n := by
  have hkeep (c : Cursor) (j : Nat) : (c.note j what).index = c.index ∧
      (c.note j what).binds = c.binds := by
    unfold Cursor.note
    split
    · exact ⟨rfl, rfl⟩
    · split <;> exact ⟨rfl, rfl⟩
  intro c c' hat
  refine .inl ⟨(), n, _, _, rfl, rfl, Nat.le_refl n, ⟨?_, ?_, ?_, ?_⟩, rfl⟩
  · rw [(hkeep c' _).1]
    exact hat.rest
  · rw [(hkeep c _).1, (hkeep c' _).1]
    exact hat.index
  · rw [(hkeep c _).2, (hkeep c' _).2]
    exact hat.binds
  · rw [(c.leads_note _ what).depth, (c'.leads_note _ what).depth]
    exact hat.depth

theorem nextBind : Mirrors x n Parser.nextBind Parser.nextBind fun m _ => m = n := by
  intro c c' hat
  have hbinds := hat.binds
  refine .inl ⟨c.binds + 1, n, { c with binds := c.binds + 1 }, { c' with binds := c'.binds + 1 }, rfl,
    ?_, Nat.le_refl n, ⟨hat.rest, hat.index, ?_, hat.depth⟩, rfl⟩
  · rw [hbinds]
    rfl
  · rw [hbinds]

/-- The name of a function moves no cursor. -/
theorem nameFunction (ns : List Name) {f g : Unit → Parser β} (h : Mirrors x n (f ()) (g ()) S) :
    Mirrors x n (Parser.nameFunction ns >>= f) (Parser.nameFunction ns >>= g) S :=
  fun c c' hat => h { c with functions := ns :: c.functions } { c' with functions := ns :: c'.functions }
    ⟨hat.rest, hat.index, hat.binds, hat.depth⟩

/-! ### Levels -/

/-- Parsers one level down. Both are refused, or neither is. -/
theorem level (h : Mirrors x n p q Q) : Mirrors x n (Parser.level p) (Parser.level q) Q := by
  intro c c' hat
  have hdepth := hat.depth
  by_cases hfull : Parser.maxDepth ≤ c.depth
  · exact .inr ⟨_, _, c, c', if_pos hfull, if_pos (hdepth ▸ hfull)⟩
  have hroom : c.depth < Parser.maxDepth := Nat.not_le.mp hfull
  rcases h c.down c'.down ⟨hat.rest, hat.index, hat.binds, congrArg (· + 1) hdepth⟩ with
    ⟨a, m, e, e', hp, hq, hm, hat', ha⟩ | ⟨y, y', e, e', hp, hq⟩
  · exact .inl ⟨a, m, e.up, e'.up, Parser.level_of_lt hroom hp, Parser.level_of_lt (hdepth ▸ hroom) hq, hm,
      ⟨hat'.rest, hat'.index, hat'.binds, congrArg (· - 1) hat'.depth⟩, ha⟩
  · exact .inr ⟨y, y', e.up, e'.up, Parser.level_of_lt hroom hp, Parser.level_of_lt (hdepth ▸ hroom) hq⟩

/-! ### Tests -/

theorem peekWord (word : String) :
    Mirrors x n (Parser.peekWord word) (Parser.peekWord word) (Looks n) := by
  refine peek (fun hn t => pure ⟨rfl, fun _ => hn⟩) fun _ t u ht hu => ?_
  rw [Token.isWord_of_isStop ht, Token.isWord_of_isStop hu]
  exact pure ⟨rfl, by simp⟩

theorem peekSymbol {symbol : String} (hs : symbol ≠ ";") :
    Mirrors x n (Parser.peekSymbol symbol) (Parser.peekSymbol symbol) (Looks n) := by
  refine peek (fun hn t => pure ⟨rfl, fun _ => hn⟩) fun _ t u ht hu => ?_
  rw [Token.isSymbol_of_isStop ht hs, Token.isSymbol_of_isStop hu hs]
  exact pure ⟨rfl, by simp⟩

/-- Two ways to go on behind a test that only looks. -/
theorem looks {t u : Parser Bool} {p p' q q' : Parser α} (ht : Mirrors x n t u (Looks n))
    (hp : 0 < n → Mirrors x n p p' Q) (hq : Mirrors x n q q' Q) :
    Mirrors x n (t >>= fun b => if b then p else q) (u >>= fun b => if b then p' else q') Q := by
  refine ht.bind fun m _ b hb => ?_
  obtain ⟨rfl, hb⟩ := hb
  cases b with
  | true => exact hp (hb rfl)
  | false => exact hq

/-- Two ways to go on behind a test that takes tokens. -/
theorem takes {t u : Parser Bool} {p p' q q' : Parser α} (ht : Mirrors x n t u (Takes n))
    (hp : ∀ m < n, Mirrors x m p p' Q) (hq : Mirrors x n q q' Q) :
    Mirrors x n (t >>= fun b => if b then p else q) (u >>= fun b => if b then p' else q') Q := by
  refine ht.bind fun m _ b hb => ?_
  cases b with
  | true => exact hp m hb
  | false =>
    obtain rfl : m = n := hb
    exact hq

theorem checkWord (word : String) :
    Mirrors x n (Parser.checkWord word) (Parser.checkWord word) (Looks n) :=
  looks (peekWord word) (fun hn => pure ⟨rfl, fun _ => hn⟩)
    ((note _ _).bind fun _ _ _ hm => pure ⟨hm, by simp⟩)

theorem checkSymbol {symbol : String} (hs : symbol ≠ ";") :
    Mirrors x n (Parser.checkSymbol symbol) (Parser.checkSymbol symbol) (Looks n) :=
  looks (peekSymbol hs) (fun hn => pure ⟨rfl, fun _ => hn⟩)
    ((note _ _).bind fun _ _ _ hm => pure ⟨hm, by simp⟩)

theorem eatWord (word : String) :
    Mirrors x n (Parser.eatWord word) (Parser.eatWord word) (Takes n) :=
  looks (checkWord word) (fun hn => (advance hn).bind fun m _ _ hm => pure (by simp [Takes]; omega))
    (pure (by simp [Takes]))

theorem eatSymbol {symbol : String} (hs : symbol ≠ ";") :
    Mirrors x n (Parser.eatSymbol symbol) (Parser.eatSymbol symbol) (Takes n) :=
  looks (checkSymbol hs) (fun hn => (advance hn).bind fun m _ _ hm => pure (by simp [Takes]; omega))
    (pure (by simp [Takes]))

theorem expectWord (word : String) :
    Mirrors x n (Parser.expectWord word) (Parser.expectWord word) fun m _ => m < n :=
  takes (eatWord word) (fun _ hm => pure hm) (fails .unexpected .unexpected)

theorem expectSymbol {symbol : String} (hs : symbol ≠ ";") :
    Mirrors x n (Parser.expectSymbol symbol) (Parser.expectSymbol symbol) fun m _ => m < n :=
  takes (eatSymbol hs) (fun _ hm => pure hm) (fails .unexpected .unexpected)

theorem onlyIf (b : Bool) {t u : Parser Bool} (ht : Mirrors x n t u (Takes n)) :
    Mirrors x n (Parser.onlyIf b t) (Parser.onlyIf b u) (Takes n) := by
  cases b with
  | true => exact ht
  | false => exact pure (by simp [Takes])

theorem onlyIf_looks (b : Bool) {t u : Parser Bool} (ht : Mirrors x n t u (Looks n)) :
    Mirrors x n (Parser.onlyIf b t) (Parser.onlyIf b u) (Looks n) := by
  cases b with
  | true => exact ht
  | false => exact pure ⟨rfl, by simp⟩

/-- A test that is made only where the dialect supports a construct. -/
theorem onlyIf_supports (y : Construct) {t u : Parser Bool} (ht : Mirrors x n t u (Takes n)) :
    Mirrors x n (Parser.supports y >>= fun b => Parser.onlyIf b t)
      (Parser.supports y >>= fun b => Parser.onlyIf b u) (Takes n) :=
  supports y fun b => onlyIf b ht

/-- The words that are missing are the same; if none is, all of them stand in the part. -/
theorem missingWord (words : List String) (k : Nat) (hk : k ≤ n) :
    Mirrors x n (Parser.missingWord k words) (Parser.missingWord k words) fun m o =>
      m = n ∧ (o = none → k + words.length ≤ n) := by
  induction words generalizing k with
  | nil => exact pure ⟨rfl, fun _ => hk⟩
  | cons word words ih =>
    refine peekTest hk (fun _ _ h => h.isWord word) (fun _ h => Token.isWord_of_isStop h word)
      fun t u b ht hu hlt => ?_
    rw [ht, hu]
    cases b with
    | false => exact pure ⟨rfl, by simp⟩
    | true =>
      refine (ih (k + 1) (hlt rfl)).mono fun m _ o ho => ⟨ho.1, fun hnone => ?_⟩
      have := ho.2 hnone
      simp only [List.length_cons]
      omega

theorem times_advance (k : Nat) (hk : k ≤ n) :
    Mirrors x n (Parser.times k Parser.advance) (Parser.times k Parser.advance) fun m _ =>
      m + k = n := by
  induction k generalizing n with
  | zero => exact pure rfl
  | succ k ih =>
    refine (advance (by omega)).bind fun m _ a hm => ?_
    refine (ih (by omega)).bind fun m' _ as hm' => pure (by omega)

theorem eatWords {words : List String} (hne : words ≠ []) :
    Mirrors x n (Parser.eatWords words) (Parser.eatWords words) (Takes n) := by
  have hpos : 0 < words.length := List.length_pos_iff.mpr hne
  refine (missingWord words 0 (Nat.zero_le n)).bind fun m _ o ho => ?_
  obtain ⟨rfl, ho⟩ := ho
  cases o with
  | none =>
    have hle := ho rfl
    refine (times_advance words.length (by omega)).bind fun m' _ _ hm' => pure ?_
    simp only [Takes, if_true]
    omega
  | some missing => exact (note _ _).bind fun m' _ _ hm' => pure (by simpa [Takes] using hm')

/-! ### Optional parts and repetition -/

theorem optional {t u : Parser Bool} (ht : Mirrors x n t u (Takes n))
    (hp : ∀ m < n, Mirrors x m p q Any) :
    Mirrors x n (Parser.optional t p) (Parser.optional u q) (Steps n) :=
  takes ht (fun m hm => (hp m hm).bind fun k hk _ _ => pure fun _ => Nat.lt_of_le_of_lt hk hm)
    (pure (by simp [Steps]))

theorem optionalList {t u : Parser Bool} {p q : Parser (List α)} (ht : Mirrors x n t u (Takes n))
    (hp : ∀ m < n, Mirrors x m p q Any) :
    Mirrors x n (Parser.optionalList t p) (Parser.optionalList u q) Any :=
  takes ht hp (pure trivial)

/-- Enough steps are enough on both sides. -/
theorem manyUpTo {p q : Parser (Option α)} (hp : ∀ n, Mirrors x n p q (Steps n)) (k j : Nat)
    (hk : n < k) (hj : n < j) : Mirrors x n (Parser.manyUpTo p k) (Parser.manyUpTo q j) Any := by
  induction k generalizing n j with
  | zero => cases hk
  | succ k ih =>
    obtain ⟨j, rfl⟩ : ∃ i, j = i + 1 := ⟨j - 1, by omega⟩
    refine (hp n).bind fun m _ o ho => ?_
    cases o with
    | none => exact pure trivial
    | some a =>
      have hm : m < n := ho rfl
      exact (ih j (by omega) (by omega)).andThen fun _ _ => pure trivial

theorem many {p q : Parser (Option α)} (hp : ∀ n, Mirrors x n p q (Steps n)) :
    Mirrors x n (Parser.many p) (Parser.many q) Any :=
  remaining fun r r' hr hr' => manyUpTo hp (r + 1) (r' + 1) (by omega) (by omega)

theorem iterateUpTo {f g : σ → Parser (Option σ)} (hf : ∀ n s, Mirrors x n (f s) (g s) (Steps n))
    (s : σ) (k j : Nat) (hk : n < k) (hj : n < j) :
    Mirrors x n (Parser.iterateUpTo f s k) (Parser.iterateUpTo g s j) Any := by
  induction k generalizing n j s with
  | zero => cases hk
  | succ k ih =>
    obtain ⟨j, rfl⟩ : ∃ i, j = i + 1 := ⟨j - 1, by omega⟩
    refine (hf n s).bind fun m _ o ho => ?_
    cases o with
    | none => exact pure trivial
    | some s' =>
      have hm : m < n := ho rfl
      exact ih s' j (by omega) (by omega)

theorem iterate {f g : σ → Parser (Option σ)} (hf : ∀ n s, Mirrors x n (f s) (g s) (Steps n))
    (s : σ) : Mirrors x n (Parser.iterate f s) (Parser.iterate g s) Any :=
  remaining fun r r' hr hr' => iterateUpTo hf s (r + 1) (r' + 1) (by omega) (by omega)

theorem afterCommas (hp : ∀ n, Mirrors x n p q Any) :
    Mirrors x n (Parser.afterCommas p) (Parser.afterCommas q) Any :=
  many fun _ => optional (eatSymbol (by decide)) fun m _ => hp m

theorem commaSeparated (hp : ∀ n, Mirrors x n p q Any) :
    Mirrors x n (Parser.commaSeparated p) (Parser.commaSeparated q) Any :=
  (hp n).andThen fun _ _ => (afterCommas hp).andThen fun _ _ => pure trivial

theorem parenthesized (hp : ∀ m < n, Mirrors x m p q Any) :
    Mirrors x n (Parser.parenthesized p) (Parser.parenthesized q) fun m _ => m < n := by
  refine (expectSymbol (by decide)).bind fun m _ _ hm => (hp m hm).bind fun k hk a _ => ?_
  exact (expectSymbol (by decide)).bind fun j hj _ _ => pure (by omega)

/-! ### Names -/

theorem name : Mirrors x n Parser.name Parser.name fun m _ => m + 1 = n := by
  have hno : Fails (Parser.expectHere "identifier" >>= fun _ => (Parser.unexpected : Parser Name)) :=
    .after fun _ => .unexpected
  refine peekOrFail (fun hn t => ?_) fun t ht => ?_
  · split
    · exact (advance hn).bind fun m _ _ hm => pure hm
    · exact fails hno hno
  · rw [if_neg (by simp [Token.isName_of_isStop ht])]
    exact hno

theorem dottedPart : Mirrors x n Parser.dottedPart Parser.dottedPart (Steps n) := by
  refine looks (peekSymbol (by decide)) (fun hn => ?_) (pure (by simp [Steps]))
  refine (advance hn).bind fun m _ _ hm => name.bind fun k _ _ hk => pure fun _ => ?_
  omega

theorem qualifiedName : Mirrors x n Parser.qualifiedName Parser.qualifiedName Any :=
  name.andThen fun _ _ => (many fun _ => dottedPart).andThen fun _ _ => pure trivial

theorem nameList : Mirrors x n Parser.nameList Parser.nameList Any :=
  (parenthesized fun _ _ => commaSeparated fun _ => name.any).any

theorem optionalNameList : Mirrors x n Parser.optionalNameList Parser.optionalNameList Any :=
  looks (peekSymbol (by decide)) (fun _ => nameList) (pure trivial)

end Mirrors

end SqlDialects
