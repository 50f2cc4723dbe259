import SqlDialects.Proofs.Tally

/-!
# Which tokens a parser has read

* `Filling` : tokens, the numbers for their bare parameters, and the place behind which faults lie;
* `Keeps` : a parser moves forward and blames no token before the given place; where it succeeds, its
  tokens are accounted for, and on the tokens with numbers another parser has the corresponding
  result;
* how the combinators and the small steps of the grammar keep this.

The relation is about two parsers because a production takes parts of the tree that were read before
it as arguments, and these have their own numbers filled in.
-/

namespace SqlDialects

/-! ## The relation -/

/-- Tokens, numbers for their bare parameters, and a place; what is read behind the place is to blame
no token before it. -/
structure Filling where
  input : Input
  value : Nat → String
  start : Nat
  closed : input.finish.kind = .finish

namespace Filling

variable {x : Filling} {k : Nat} {c c' e : Cursor}

/-- The tokens with their numbers. -/
def filled (x : Filling) : Input := x.input.fill x.value

theorem token_filled (x : Filling) (k : Nat) :
    x.filled.token k = (x.input.token k).fill (x.value (x.input.marks k + 1)) :=
  Input.token_fill x.value x.closed k

theorem token_filled_of_kind (h : (x.input.token k).kind ≠ .param) :
    x.filled.token k = x.input.token k := by
  rw [token_filled, Token.fill_of_kind h]

/-- A token other than the end is one of the list. -/
theorem lt_size (h : (x.input.token k).kind ≠ .finish) : k < x.input.tokens.size := by
  by_contra hk
  refine h ?_
  rw [Input.token, Array.getElem?_eq_none (Nat.le_of_not_lt hk)]
  exact x.closed

/-- A token that is there and has no value. -/
structure Plain (x : Filling) (k : Nat) : Prop where
  lt : k < x.input.tokens.size
  kind : (x.input.token k).kind.isValue = false

theorem Plain.of_word {word : String} (h : (x.input.token k).isWord word = true) : x.Plain k :=
  ⟨x.lt_size fun hk => by simp [Token.isWord, Token.isBareWord, hk] at h, Token.isValue_of_isWord h⟩

theorem Plain.of_bareWord (h : (x.input.token k).isBareWord = true) : x.Plain k :=
  ⟨x.lt_size fun hk => by simp [Token.isBareWord, hk] at h, Token.isValue_of_isBareWord h⟩

theorem Plain.of_symbol {symbol : String} (h : (x.input.token k).isSymbol symbol = true) :
    x.Plain k :=
  ⟨x.lt_size fun hk => by simp [Token.isSymbol, hk] at h, Token.isValue_of_isSymbol h⟩

theorem Plain.of_name (h : (x.input.token k).isName = true) : x.Plain k :=
  ⟨x.lt_size fun hk => by simp [Token.isName, hk] at h, Token.isValue_of_isName h⟩

theorem Plain.token (h : x.Plain k) : x.filled.token k = x.input.token k :=
  token_filled_of_kind fun hk => by simpa [hk, Token.Kind.isValue] using h.kind

/-- Both cursors stand at the token `k`, as deep as each other, and nothing behind the last token has been asked
about. -/
structure At (x : Filling) (k : Nat) (c c' : Cursor) : Prop where
  index : c.index = k
  filled : c'.index = k
  start : x.start ≤ k
  room : k ≤ x.input.tokens.size
  seen : c.furthest ≤ x.input.tokens.size
  depth : c.depth = c'.depth

/-- The cursor has not moved back, and not behind the end. -/
structure Moves (x : Filling) (c e : Cursor) : Prop where
  index : c.index ≤ e.index
  room : e.index ≤ x.input.tokens.size
  furthest : c.furthest ≤ e.furthest
  seen : e.furthest ≤ x.input.tokens.size

theorem Moves.trans {e' : Cursor} (h : x.Moves c e) (h' : x.Moves e e') : x.Moves c e' :=
  ⟨Nat.le_trans h.index h'.index, h'.room, Nat.le_trans h.furthest h'.furthest, h'.seen⟩

theorem At.stays (h : x.At k c c') : x.Moves c c :=
  ⟨Nat.le_refl _, by rw [h.index]; exact h.room, Nat.le_refl _, h.seen⟩

/-- The fault lies at a token behind the given place. -/
def Blames (x : Filling) (f : Fault) : Prop :=
  ∃ j expected found, x.start ≤ j ∧ j ≤ x.input.tokens.size ∧
    f = .unexpected (x.input.token j).position expected found

end Filling

/-- From the token `k` on, `p` moves forward. It blames no token before the given place; or it gives
`a`, its tokens stand for some values `ls`, and on the tokens with their numbers `q` gives some `b` and
moves as far. Then `R m a b ls` holds, where `m` is the next token. -/
def Keeps {α : Type} (x : Filling) (k : Nat) (p q : Parser α)
    (R : Nat → α → α → Multiset Leaf → Prop) : Prop :=
  ∀ c c', x.At k c c' →
    (∃ a e b ls, p x.input c = (.ok a, e) ∧ x.Moves c e ∧
      Tally x.input k c.binds e.index e.binds ls ∧ R e.index a b ls ∧
      (c.binds = x.input.marks k → ∃ e', q x.filled c' = (.ok b, e') ∧ e'.index = e.index)) ∨
    ∃ f e, p x.input c = (.error f, e) ∧ x.Moves c e ∧ x.Blames f

/-- The same result, which has no values. -/
def Same {α : Type} (_ : Nat) (a b : α) (ls : Multiset Leaf) : Prop := b = a ∧ ls = 0

/-- A result with its values, and the one with its numbers. -/
def Means {α : Type} (fill : α → α) (values : α → Multiset Leaf) (_ : Nat) (a b : α)
    (ls : Multiset Leaf) : Prop :=
  b = fill a ∧ ls = values a

/-- What holds of a result if the values `ls` have been read before it. -/
def After {α : Type} (ls : Multiset Leaf) (R : Nat → α → α → Multiset Leaf → Prop) (m : Nat) (a b : α)
    (ls' : Multiset Leaf) : Prop :=
  R m a b (ls + ls')

/-- The result `t` of a test that only looks at the token `k`. -/
def Peeks (k : Nat) (t : Bool) (m : Nat) (b b' : Bool) (ls : Multiset Leaf) : Prop :=
  m = k ∧ b = t ∧ b' = t ∧ ls = 0

/-- The result `t` of a test that takes the token `k` if it succeeds. -/
def Eats (k : Nat) (t : Bool) (m : Nat) (b b' : Bool) (ls : Multiset Leaf) : Prop :=
  m = k + t.toNat ∧ b = t ∧ b' = t ∧ ls = 0

namespace Keeps

variable {α β σ : Type} {x : Filling} {k : Nat} {p q : Parser α} {f g : α → Parser β}
  {P R : Nat → α → α → Multiset Leaf → Prop} {S : Nat → β → β → Multiset Leaf → Prop}
  {fill : α → α} {values : α → Multiset Leaf}

theorem pure {a b : α} (h : R k a b 0) : Keeps x k (Pure.pure a) (Pure.pure b) R := by
  intro c c' hat
  refine .inl ⟨a, c, b, [], rfl, hat.stays, ?_, ?_, fun _ => ⟨c', rfl, ?_⟩⟩
  · rw [hat.index]
    exact .nil
  · rw [hat.index]
    exact h
  · rw [hat.filled, hat.index]

theorem mono (h : Keeps x k p q P) (hpq : ∀ m a b ls, P m a b ls → R m a b ls) :
    Keeps x k p q R := by
  intro c c' hat
  rcases h c c' hat with ⟨a, e, b, ls, hp, hmoves, htally, hP, hq⟩ | hfault
  · exact .inl ⟨a, e, b, ls, hp, hmoves, htally, hpq _ a b ls hP, hq⟩
  · exact .inr hfault

theorem forward (h : Keeps x k p q R) : Keeps x k p q fun m a b ls => k ≤ m ∧ R m a b ls := by
  intro c c' hat
  rcases h c c' hat with ⟨a, e, b, ls, hp, hmoves, htally, hR, hq⟩ | hfault
  · exact .inl ⟨a, e, b, ls, hp, hmoves, htally, ⟨by rw [← hat.index]; exact hmoves.index, hR⟩, hq⟩
  · exact .inr hfault

/-- The place at which a parser starts is one of the list or its end, behind the given place. -/
theorem within (h : x.start ≤ k → k ≤ x.input.tokens.size → Keeps x k p q R) : Keeps x k p q R :=
  fun c c' hat => h hat.start hat.room c c' hat

/-- Nothing is said about a second parser if the first one fails. -/
theorem failing {q' : Parser α} (h : Keeps x k p q fun _ _ _ _ => False) : Keeps x k p q' R := by
  intro c c' hat
  rcases h c c' hat with ⟨a, e, b, ls, -, -, -, hfalse, -⟩ | hfault
  · exact hfalse.elim
  · exact .inr hfault

theorem bind (hp : Keeps x k p q P)
    (hf : ∀ m a b ls, P m a b ls → Keeps x m (f a) (g b) (After ls S)) :
    Keeps x k (p >>= f) (q >>= g) S := by
  intro c c' hat
  rcases hp c c' hat with ⟨a, e, b, ls, hrun, hmoves, htally, hP, hq⟩ | ⟨y, e, hrun, hmoves, hblame⟩
  case inr => exact .inr ⟨y, e, by simp only [Bind.bind, hrun], hmoves, hblame⟩
  -- Where the counts do not agree nothing is said about the second run, and any cursor serves.
  obtain ⟨e', hindex, hdepth, hq⟩ : ∃ e', e'.index = e.index ∧ e.depth = e'.depth ∧
      (c.binds = x.input.marks k → q x.filled c' = (.ok b, e')) := by
    by_cases hbinds : c.binds = x.input.marks k
    · obtain ⟨e', hrun', hindex⟩ := hq hbinds
      refine ⟨e', hindex, ?_, fun _ => hrun'⟩
      rw [Parser.depth_of_run hrun, Parser.depth_of_run hrun', hat.depth]
    · exact ⟨e, rfl, rfl, fun h => absurd h hbinds⟩
  have hle : k ≤ e.index := by
    rw [← hat.index]
    exact hmoves.index
  have hat' : x.At e.index e e' :=
    ⟨rfl, hindex, Nat.le_trans hat.start hle, hmoves.room, hmoves.seen, hdepth⟩
  rcases hf e.index a b ls hP e e' hat' with
    ⟨a', d, b', ls', hrun', hmoves', htally', hS, hq'⟩ | ⟨y, d, hrun', hmoves', hblame⟩
  · refine .inl ⟨a', d, b', ls ++ ls', by simp only [Bind.bind, hrun, hrun'], hmoves.trans hmoves',
      htally.append htally', ?_, fun hbinds => ?_⟩
    · rw [← Multiset.coe_add]
      exact hS
    · have hcount : e.binds = x.input.marks e.index := by
        have := htally.marks
        omega
      obtain ⟨d', hrun'', hd⟩ := hq' hcount
      exact ⟨d', by simp only [Bind.bind, hq hbinds, hrun''], hd⟩
  · exact .inr ⟨y, d, by simp only [Bind.bind, hrun, hrun'], hmoves.trans hmoves', hblame⟩

/-- Before it nothing has been read. -/
theorem after (h : Keeps x k p q R) : Keeps x k p q (After 0 R) :=
  h.mono fun _ _ _ ls hR => by simpa [After] using hR

/-- Behind a part of the tree come the values of what follows. -/
theorem andThen (hp : Keeps x k p q (Means fill values))
    (hf : ∀ m a, Keeps x m (f a) (g (fill a)) (After (values a) S)) :
    Keeps x k (p >>= f) (q >>= g) S :=
  hp.bind fun m a b ls h => by
    obtain ⟨rfl, rfl⟩ := h
    exact hf m a

/-- What has no values does not matter for what follows. -/
theorem skip (hp : Keeps x k p q Same) (hf : ∀ m a, Keeps x m (f a) (g a) S) :
    Keeps x k (p >>= f) (q >>= g) S :=
  hp.bind fun m a b ls h => by
    obtain ⟨rfl, rfl⟩ := h
    exact (hf m b).after

theorem map {h : α → β} (hp : Keeps x k p q P)
    (hR : ∀ m a b ls, P m a b ls → S m (h a) (h b) ls) : Keeps x k (h <$> p) (h <$> q) S :=
  hp.bind fun m a b ls hP => pure (by simpa [After] using hR m a b ls hP)

/-- Tokens that are one part of the tree, whatever stands among them. -/
theorem part (h : Keeps x k p q P) (hR : ∀ c a e b (ls : List Leaf), c.index = k →
    p x.input c = (.ok a, e) → Tally x.input k c.binds e.index e.binds ls → P e.index a b ls →
    R e.index a b ls ∨ ∃ l, x.input.Part k e.index l ∧ R e.index a b {l}) :
    Keeps x k p q R := by
  intro c c' hat
  rcases h c c' hat with ⟨a, e, b, ls, hrun, hmoves, htally, hP, hq⟩ | hfault
  · rcases hR c a e b ls hat.index hrun htally hP with hR | ⟨l, hl, hR⟩
    · exact .inl ⟨a, e, b, ls, hrun, hmoves, htally, hR, hq⟩
    · exact .inl ⟨a, e, b, [l], hrun, hmoves, .part htally hl .nil, hR, hq⟩
  · exact .inr hfault

/-! ### Faults -/

theorem unexpected {q : Parser α} : Keeps x k Parser.unexpected q R := by
  intro c c' hat
  have hindex := hat.index
  have hstart := hat.start
  have hroom := hat.room
  have hseen := hat.seen
  exact .inr ⟨_, c, rfl, hat.stays, max c.furthest c.index, _, _, by omega, by omega, rfl⟩

/-- Nothing behind a fault is reached. -/
theorem before {q' : Parser β} (h : Keeps x k p q fun _ _ _ _ => False) :
    Keeps x k (p >>= f) q' S := by
  intro c c' hat
  rcases h c c' hat with ⟨a, e, b, ls, -, -, -, hfalse, -⟩ | ⟨y, e, hrun, hmoves, hblame⟩
  · exact hfalse.elim
  · exact .inr ⟨y, e, by simp only [Bind.bind, hrun], hmoves, hblame⟩

/-- A fault at a token that was read behind the given place. -/
theorem unexpectedAt {t : Token} (what : String)
    (ht : ∃ j, x.start ≤ j ∧ j ≤ x.input.tokens.size ∧ t.position = (x.input.token j).position) :
    Keeps x k (Parser.unexpectedAt t what) q R := by
  intro c c' hat
  obtain ⟨j, hstart, hroom, hposition⟩ := ht
  refine .inr ⟨_, c, rfl, hat.stays, j, [what], t.describe, hstart, hroom, ?_⟩
  rw [hposition]

theorem fail {y : Fault} (hy : x.Blames y) : Keeps x k (Parser.fail y) q R :=
  fun c _ hat => .inr ⟨y, c, rfl, hat.stays, hy⟩

/-! ### Looking at tokens -/

theorem of_run {p' q' : Parser α} (hp : ∀ c, c.index = k → p x.input c = p' x.input c)
    (hq : ∀ c, c.index = k → q x.filled c = q' x.filled c) (h : Keeps x k p' q' R) :
    Keeps x k p q R := by
  intro c c' hat
  rw [hp c hat.index, hq c' hat.filled]
  exact h c c' hat

theorem dialect {f g : Dialect → Parser β}
    (h : Keeps x k (f x.input.dialect) (g x.input.dialect) S) :
    Keeps x k (Parser.dialect >>= f) (Parser.dialect >>= g) S :=
  of_run (fun _ _ => rfl) (fun _ _ => rfl) h

theorem rules {f g : ReadingRules → Parser β}
    (h : Keeps x k (f x.input.dialect.reading) (g x.input.dialect.reading) S) :
    Keeps x k (Parser.rules >>= f) (Parser.rules >>= g) S :=
  of_run (fun _ _ => rfl) (fun _ _ => rfl) h

theorem supports (y : Construct) {f g : Bool → Parser β}
    (h : Keeps x k (f (x.input.dialect.supports y)) (g (x.input.dialect.supports y)) S) :
    Keeps x k (Parser.supports y >>= f) (Parser.supports y >>= g) S :=
  of_run (fun _ _ => rfl) (fun _ _ => rfl) h

theorem peekNth (j : Nat) {f g : Token → Parser β}
    (h : Keeps x k (f (x.input.token (k + j))) (g (x.filled.token (k + j))) S) :
    Keeps x k (Parser.peekNth j >>= f) (Parser.peekNth j >>= g) S :=
  of_run (fun c hc => by rw [← hc]; rfl) (fun c hc => by rw [← hc]; rfl) h

theorem peek {f g : Token → Parser β}
    (h : Keeps x k (f (x.input.token k)) (g (x.filled.token k)) S) :
    Keeps x k (Parser.peek >>= f) (Parser.peek >>= g) S :=
  peekNth 0 h

/-- The name of a function that is read moves no cursor. -/
theorem nameFunction (ns : List Name) :
    Keeps x k (Parser.nameFunction ns) (Parser.nameFunction ns) Same := by
  intro c c' hat
  have hstays := hat.stays
  refine .inl ⟨(), { c with functions := ns :: c.functions }, (), [], rfl,
    ⟨hstays.index, hstays.room, hstays.furthest, hstays.seen⟩, ?_, ⟨rfl, rfl⟩, fun _ => ⟨_, rfl, ?_⟩⟩
  · rw [hat.index]
    exact .nil
  · exact hat.filled.trans hat.index.symm

/-- A fault at the next token. -/
theorem unexpectedHere (what : String) :
    Keeps x k (Parser.peek >>= fun t => Parser.unexpectedAt t what) q R :=
  within fun hstart hroom => failing (q := Parser.peek >>= fun _ => Parser.unexpected)
    (peek (unexpectedAt what ⟨k, hstart, hroom, rfl⟩))

/-- Parsers one level down. Where the levels are used up the next token is to blame. -/
theorem level (h : Keeps x k p q R) : Keeps x k (Parser.level p) (Parser.level q) R := by
  intro c c' hat
  by_cases hfull : Parser.maxDepth ≤ c.depth
  · rcases unexpectedHere (q := q) (R := R) s!"at most {Parser.maxDepth} levels of nesting" c c' hat with
      ⟨a, e, b, ls, hrun, -⟩ | ⟨y, e, hrun, hmoves, hblame⟩
    · cases hrun
    · exact .inr ⟨y, e, (if_pos hfull).trans hrun, hmoves, hblame⟩
  have hroom : c.depth < Parser.maxDepth := Nat.not_le.mp hfull
  have hroom' : c'.depth < Parser.maxDepth := hat.depth ▸ hroom
  rcases h c.down c'.down
      ⟨hat.index, hat.filled, hat.start, hat.room, hat.seen, congrArg (· + 1) hat.depth⟩ with
    ⟨a, e, b, ls, hrun, hmoves, htally, hR, hq⟩ | ⟨y, e, hrun, hmoves, hblame⟩
  · refine .inl ⟨a, e.up, b, ls, Parser.level_of_lt hroom hrun,
      ⟨hmoves.index, hmoves.room, hmoves.furthest, hmoves.seen⟩, htally, hR, fun hbinds => ?_⟩
    obtain ⟨e', hrun', hindex⟩ := hq hbinds
    exact ⟨e'.up, Parser.level_of_lt hroom' hrun', hindex⟩
  · exact .inr ⟨y, e.up, Parser.level_of_lt hroom hrun,
      ⟨hmoves.index, hmoves.room, hmoves.furthest, hmoves.seen⟩, hblame⟩

theorem remaining {f g : Nat → Parser β}
    (h : Keeps x k (f (x.input.tokens.size - k)) (g (x.input.tokens.size - k)) S) :
    Keeps x k (Parser.remaining >>= f) (Parser.remaining >>= g) S := by
  refine of_run (fun c hc => by rw [← hc]; rfl) (fun c hc => ?_) h
  rw [← hc, ← Input.size_fill x.value x.input]
  rfl

/-- A token that is taken on both sides. -/
theorem advance_of {l : List Leaf} {t : Token} (hk : k < x.input.tokens.size)
    (htally : ∀ n, Tally x.input k n (k + 1) n l) (ht : x.filled.token k = t) :
    Keeps x k Parser.advance Parser.advance fun m a b ls =>
      m = k + 1 ∧ a = x.input.token k ∧ b = t ∧ ls = l := by
  intro c c' hat
  have hindex := hat.index
  have hfilled := hat.filled
  have hseen := hat.seen
  have hlt : c.index < x.input.tokens.size := by omega
  refine .inl ⟨x.input.token k, { c with index := k + 1 }, t, l, ?_, ⟨?_, ?_, Nat.le_refl _, hseen⟩,
    htally c.binds, ⟨rfl, rfl, rfl, rfl⟩, fun _ => ⟨{ c' with index := k + 1 }, ?_, rfl⟩⟩
  · simp [Parser.advance, hindex, hk]
  · simp only
    omega
  · simp only
    omega
  · have hsize : k < x.filled.tokens.size := by rwa [Filling.filled, Input.size_fill]
    simp [Parser.advance, hfilled, ht, hsize]

/-- A token without a value. -/
theorem advance (h : x.Plain k) :
    Keeps x k Parser.advance Parser.advance fun m a b ls =>
      m = k + 1 ∧ a = x.input.token k ∧ b = a ∧ ls = 0 :=
  (advance_of h.lt (fun _ => .plain h.lt h.kind .nil) h.token).mono
    fun _ _ _ _ hR => ⟨hR.1, hR.2.1, hR.2.2.1.trans hR.2.1.symm, hR.2.2.2⟩

theorem advance_same (h : x.Plain k) : Keeps x k Parser.advance Parser.advance Same :=
  (advance h).mono fun _ _ _ _ hR => hR.2.2

/-- A token with a value. -/
theorem advance_value {l : Leaf} (hk : (x.input.token k).kind ≠ .param)
    (hl : ∀ n, (x.input.token k).Stands n l) :
    Keeps x k Parser.advance Parser.advance fun m a b ls =>
      m = k + 1 ∧ a = x.input.token k ∧ b = a ∧ ls = {l} := by
  have hlt : k < x.input.tokens.size := by
    refine x.lt_size fun hfinish => ?_
    cases hl 0 <;> simp_all
  have htally (n : Nat) : Tally x.input k n (k + 1) n [l] := by
    have hvalue := Tally.value hlt (hl n) .nil
    rwa [Token.isMark_of_kind hk] at hvalue
  exact (advance_of hlt htally (Filling.token_filled_of_kind hk)).mono
    fun _ _ _ _ hR => ⟨hR.1, hR.2.1, hR.2.2.1.trans hR.2.1.symm, hR.2.2.2⟩

theorem note (j : Nat) (what : String) (hj : k + j ≤ x.input.tokens.size) :
    Keeps x k (Parser.expectNth j what) (Parser.expectNth j what) fun m _ _ ls => m = k ∧ ls = 0 := by
  have hkeep (c : Cursor) (l : Nat) : (c.note l what).index = c.index ∧
      (c.note l what).binds = c.binds ∧ c.furthest ≤ (c.note l what).furthest ∧
      (c.note l what).furthest ≤ max c.furthest l := by
    unfold Cursor.note
    split
    · exact ⟨rfl, rfl, by simp only; omega, by simp only; omega⟩
    · split
      · exact ⟨rfl, rfl, Nat.le_refl _, by simp only; omega⟩
      · exact ⟨rfl, rfl, Nat.le_refl _, by omega⟩
  intro c c' hat
  obtain ⟨hindex, hbinds, hle, hmax⟩ := hkeep c (c.index + j)
  have hat' := hat
  obtain ⟨rfl, hfilled, -, hroom, hseen, -⟩ := hat'
  refine .inl ⟨(), c.note (c.index + j) what, (), [], rfl, ⟨by omega, by omega, hle, by omega⟩, ?_, ?_,
    fun _ => ⟨c'.note (c'.index + j) what, rfl, ?_⟩⟩
  · rw [hindex, hbinds]
    exact .nil
  · exact ⟨hindex, rfl⟩
  · rw [(hkeep c' _).1, hindex, hfilled]

theorem here (what : String) :
    Keeps x k (Parser.expectHere what) (Parser.expectHere what) fun m _ _ ls => m = k ∧ ls = 0 := by
  intro c c' hat
  exact note 0 what hat.room c c' hat

/-- A production that does not go on here. -/
theorem missing (what : String) :
    Keeps x k (Parser.expectHere what >>= fun _ => Parser.unexpected) q R :=
  failing (q := Parser.expectHere what >>= fun _ => Parser.unexpected)
    ((here what).bind fun _ _ _ _ _ => unexpected)

theorem missing_before {h : β → Parser α} (what : String) :
    Keeps x k (Parser.expectHere what >>= fun _ => Parser.unexpected >>= h) q R :=
  failing (q := Parser.expectHere what >>= fun _ => Parser.unexpected)
    ((here what).bind fun _ _ _ _ _ => before (q := Parser.unexpected) unexpected)

/-! ### Tests -/

/-- Two ways to go on by a test with the same result on both sides. -/
theorem ite {b b' : Bool} (hb : b' = b) {p' q' : Parser α} (hp : b = true → Keeps x k p q R)
    (hq : b = false → Keeps x k p' q' R) :
    Keeps x k (if b then p else p') (if b' then q else q') R := by
  subst hb
  cases b' with
  | true => exact hp rfl
  | false => exact hq rfl

theorem peekWord (word : String) : Keeps x k (Parser.peekWord word) (Parser.peekWord word)
    (Peeks k ((x.input.token k).isWord word)) := by
  refine peek ?_
  rw [x.token_filled, Token.isWord_fill]
  exact pure ⟨rfl, rfl, rfl, rfl⟩

theorem peekSymbol (symbol : String) : Keeps x k (Parser.peekSymbol symbol) (Parser.peekSymbol symbol)
    (Peeks k ((x.input.token k).isSymbol symbol)) := by
  refine peek ?_
  rw [x.token_filled, Token.isSymbol_fill]
  exact pure ⟨rfl, rfl, rfl, rfl⟩

section Tests

variable {t u : Parser Bool} {v : Bool} {p' q' : Parser α}

/-- Two ways to go on behind a test that only looks. -/
theorem looks (ht : Keeps x k t u (Peeks k v)) (hp : v = true → Keeps x k p q R)
    (hq : v = false → Keeps x k p' q' R) :
    Keeps x k (t >>= fun b => if b then p else p') (u >>= fun b => if b then q else q') R := by
  refine ht.bind fun m b b' ls hb => ?_
  obtain ⟨rfl, rfl, rfl, rfl⟩ := hb
  exact ite rfl (fun h => (hp h).after) fun h => (hq h).after

/-- Two ways to go on behind a test that takes a token. -/
theorem takes (ht : Keeps x k t u (Eats k v)) (hp : v = true → Keeps x (k + 1) p q R)
    (hq : v = false → Keeps x k p' q' R) :
    Keeps x k (t >>= fun b => if b then p else p') (u >>= fun b => if b then q else q') R := by
  refine ht.bind fun m b b' ls hb => ?_
  obtain ⟨rfl, rfl, rfl, rfl⟩ := hb
  cases b' with
  | true => exact (hp rfl).after
  | false => exact (hq rfl).after

/-- Two ways to go on behind a test. -/
theorem test (ht : Keeps x k t u Same) (hp : ∀ m, Keeps x m p q R) (hq : ∀ m, Keeps x m p' q' R) :
    Keeps x k (t >>= fun b => if b then p else p') (u >>= fun b => if b then q else q') R :=
  ht.skip fun m _ => ite rfl (fun _ => hp m) fun _ => hq m

/-- Two ways to go on behind a test that is made only under a condition. -/
theorem testIf {b b' : Bool} (hb : b' = b) (ht : Keeps x k t u Same)
    (hp : b = true → ∀ m, Keeps x m p q R) (hq : ∀ m, Keeps x m p' q' R) :
    Keeps x k (Parser.onlyIf b t >>= fun b => if b then p else p')
      (Parser.onlyIf b' u >>= fun b => if b then q else q') R := by
  subst hb
  cases b' with
  | true => exact test ht (hp rfl) hq
  | false => exact hq k

/-- Two ways to go on behind a test that only looks, and is made only under a condition. -/
theorem lookIf {b b' : Bool} (hb : b' = b) (ht : Keeps x k t u (Peeks k v))
    (hp : b = true → v = true → Keeps x k p q R) (hq : Keeps x k p' q' R) :
    Keeps x k (Parser.onlyIf b t >>= fun b => if b then p else p')
      (Parser.onlyIf b' u >>= fun b => if b then q else q') R := by
  subst hb
  cases b' with
  | true => exact looks ht (hp rfl) fun _ => hq
  | false => exact hq

theorem same_of_peeks (ht : Keeps x k t u (Peeks k v)) : Keeps x k t u Same :=
  ht.mono fun _ _ _ _ h => ⟨h.2.2.1.trans h.2.1.symm, h.2.2.2⟩

theorem same_of_eats (ht : Keeps x k t u (Eats k v)) : Keeps x k t u Same :=
  ht.mono fun _ _ _ _ h => ⟨h.2.2.1.trans h.2.1.symm, h.2.2.2⟩

/-- A test that takes the token that it asks for. -/
theorem taking (ht : Keeps x k t u (Peeks k v)) (hv : v = true → x.Plain k) :
    Keeps x k (t >>= fun b => if b then Parser.advance >>= fun _ => Pure.pure true else Pure.pure false)
      (u >>= fun b => if b then Parser.advance >>= fun _ => Pure.pure true else Pure.pure false)
      (Eats k v) := by
  refine looks ht (fun h => ?_) fun h => pure ?_
  · refine (advance (hv h)).bind fun m _ _ _ hm => pure ?_
    subst h
    exact ⟨hm.1, rfl, rfl, by simp [hm.2.2.2]⟩
  · subst h
    exact ⟨rfl, rfl, rfl, rfl⟩

end Tests

theorem checkWord (word : String) : Keeps x k (Parser.checkWord word) (Parser.checkWord word)
    (Peeks k ((x.input.token k).isWord word)) :=
  looks (peekWord word) (fun h => pure ⟨rfl, h.symm, h.symm, rfl⟩) fun h =>
    (here _).bind fun _ _ _ _ hm => pure ⟨hm.1, h.symm, h.symm, by simp [hm.2]⟩

theorem checkSymbol (symbol : String) :
    Keeps x k (Parser.checkSymbol symbol) (Parser.checkSymbol symbol)
      (Peeks k ((x.input.token k).isSymbol symbol)) :=
  looks (peekSymbol symbol) (fun h => pure ⟨rfl, h.symm, h.symm, rfl⟩) fun h =>
    (here _).bind fun _ _ _ _ hm => pure ⟨hm.1, h.symm, h.symm, by simp [hm.2]⟩

theorem eatWord_at (word : String) : Keeps x k (Parser.eatWord word) (Parser.eatWord word)
    (Eats k ((x.input.token k).isWord word)) :=
  taking (checkWord word) .of_word

theorem eatSymbol_at (symbol : String) : Keeps x k (Parser.eatSymbol symbol) (Parser.eatSymbol symbol)
    (Eats k ((x.input.token k).isSymbol symbol)) :=
  taking (checkSymbol symbol) .of_symbol

theorem eatWord (word : String) : Keeps x k (Parser.eatWord word) (Parser.eatWord word) Same :=
  same_of_eats (eatWord_at word)

theorem eatSymbol (symbol : String) :
    Keeps x k (Parser.eatSymbol symbol) (Parser.eatSymbol symbol) Same :=
  same_of_eats (eatSymbol_at symbol)

theorem expectWord_at (word : String) :
    Keeps x k (Parser.expectWord word) (Parser.expectWord word) fun m _ _ ls =>
      (x.input.token k).isWord word = true ∧ m = k + 1 ∧ ls = 0 :=
  takes (eatWord_at word) (fun h => pure ⟨h, rfl, rfl⟩) fun _ => unexpected

theorem expectSymbol_at (symbol : String) :
    Keeps x k (Parser.expectSymbol symbol) (Parser.expectSymbol symbol) fun m _ _ ls =>
      (x.input.token k).isSymbol symbol = true ∧ m = k + 1 ∧ ls = 0 :=
  takes (eatSymbol_at symbol) (fun h => pure ⟨h, rfl, rfl⟩) fun _ => unexpected

theorem expectWord (word : String) :
    Keeps x k (Parser.expectWord word) (Parser.expectWord word) Same :=
  (expectWord_at word).mono fun _ _ _ _ h => ⟨rfl, h.2.2⟩

theorem expectSymbol (symbol : String) :
    Keeps x k (Parser.expectSymbol symbol) (Parser.expectSymbol symbol) Same :=
  (expectSymbol_at symbol).mono fun _ _ _ _ h => ⟨rfl, h.2.2⟩

theorem onlyIf (b : Bool) {t u : Parser Bool} (ht : Keeps x k t u Same) :
    Keeps x k (Parser.onlyIf b t) (Parser.onlyIf b u) Same := by
  cases b with
  | true => exact ht
  | false => exact pure ⟨rfl, rfl⟩

/-- A test that is made only where the dialect supports a construct. -/
theorem onlyIf_supports (y : Construct) {t u : Parser Bool} (ht : Keeps x k t u Same) :
    Keeps x k (Parser.supports y >>= fun b => Parser.onlyIf b t)
      (Parser.supports y >>= fun b => Parser.onlyIf b u) Same :=
  supports y (onlyIf _ ht)

/-- All words before the missing one are there, so it is asked for at a token or at the end. -/
theorem missingWord (words : List String) (j : Nat) (hj : k + j ≤ x.input.tokens.size) :
    Keeps x k (Parser.missingWord j words) (Parser.missingWord j words) fun m a b ls =>
      m = k ∧ b = a ∧ ls = 0 ∧ (a = none → ∀ l < words.length, x.Plain (k + j + l)) ∧
        ∀ n word, a = some (n, word) → k + n ≤ x.input.tokens.size := by
  induction words generalizing j with
  | nil => exact pure ⟨rfl, rfl, rfl, by simp, by simp⟩
  | cons word words ih =>
    refine peekNth j ?_
    rw [x.token_filled, Token.isWord_fill]
    split
    case isTrue h =>
      have hplain := Filling.Plain.of_word h
      refine (ih (j + 1) hplain.lt).mono fun m a b ls hR => ?_
      obtain ⟨hm, hb, hls, hnone, hsome⟩ := hR
      refine ⟨hm, hb, hls, fun ha l hl => ?_, hsome⟩
      cases l with
      | zero => exact hplain
      | succ l =>
        have := hnone ha l (by simpa using hl)
        rwa [show k + (j + 1) + l = k + j + (l + 1) by omega] at this
    case isFalse =>
      refine pure ⟨rfl, rfl, rfl, by simp, ?_⟩
      rintro n w ⟨⟩
      exact hj

theorem times_advance (n : Nat) (h : ∀ l < n, x.Plain (k + l)) :
    Keeps x k (Parser.times n Parser.advance) (Parser.times n Parser.advance) Same := by
  induction n generalizing k with
  | zero => exact pure ⟨rfl, rfl⟩
  | succ n ih =>
    refine (advance (h 0 (Nat.succ_pos n))).bind fun m a b ls hR => ?_
    obtain ⟨rfl, -, rfl, rfl⟩ := hR
    refine (ih fun l hl => ?_).skip fun _ as => pure ⟨rfl, by simp⟩
    have := h (l + 1) (by omega)
    rwa [show k + (l + 1) = k + 1 + l by omega] at this

theorem eatWords (words : List String) :
    Keeps x k (Parser.eatWords words) (Parser.eatWords words) Same := by
  intro c c' hat
  refine Keeps.bind (missingWord words 0 hat.room) (fun m a b ls hR => ?_) c c' hat
  obtain ⟨rfl, rfl, rfl, hnone, hsome⟩ := hR
  cases b with
  | none =>
    refine (times_advance words.length fun l hl => ?_).skip fun _ _ => pure ⟨rfl, by simp⟩
    exact hnone rfl l hl
  | some missing =>
    obtain ⟨n, word⟩ := missing
    exact (note n _ (hsome n word rfl)).bind fun _ _ _ _ hm => pure ⟨rfl, by simp [hm.2]⟩

/-! ### Optional parts and repetition -/

theorem optional {t u : Parser Bool} (ht : Keeps x k t u Same)
    (hp : ∀ m, Keeps x m p q (Means fill values)) :
    Keeps x k (Parser.optional t p) (Parser.optional u q)
      (Means (Option.map fill) fun o => o.elim 0 values) :=
  test ht (fun m => (hp m).andThen fun _ a => pure ⟨rfl, by simp⟩) fun _ => pure ⟨rfl, rfl⟩

theorem optionalList {t u : Parser Bool} {p q : Parser (List α)} (ht : Keeps x k t u Same)
    (hp : ∀ m, Keeps x m p q (Means (List.map fill) fun as => (as.map values).sum)) :
    Keeps x k (Parser.optionalList t p) (Parser.optionalList u q)
      (Means (List.map fill) fun as => (as.map values).sum) :=
  test ht hp fun _ => pure ⟨rfl, rfl⟩

theorem manyUpTo {p q : Parser (Option α)}
    (hp : ∀ m, Keeps x m p q (Means (Option.map fill) fun o => o.elim 0 values)) (n : Nat) :
    Keeps x k (Parser.manyUpTo p n) (Parser.manyUpTo q n)
      (Means (List.map fill) fun as => (as.map values).sum) := by
  induction n generalizing k with
  | zero => exact pure ⟨rfl, rfl⟩
  | succ n ih =>
    refine (hp k).andThen fun m o => ?_
    cases o with
    | none => exact pure ⟨rfl, rfl⟩
    | some a => exact ih.andThen fun _ as => pure ⟨rfl, by simp⟩

theorem many {p q : Parser (Option α)}
    (hp : ∀ m, Keeps x m p q (Means (Option.map fill) fun o => o.elim 0 values)) :
    Keeps x k (Parser.many p) (Parser.many q)
      (Means (List.map fill) fun as => (as.map values).sum) :=
  remaining (manyUpTo hp _)

/-- Steps that add values to a state and keep an invariant of it. -/
theorem iterateUpTo {f g : σ → Parser (Option σ)} {fill : σ → σ} {values : σ → Multiset Leaf}
    {I : σ → Prop}
    (hf : ∀ m s, I s → Keeps x m (f s) (g (fill s)) fun _ o o' ls =>
      o' = o.map fill ∧ values s + ls = values (o.getD s) ∧ ∀ s' ∈ o, I s') (n : Nat) :
    ∀ k s, I s → Keeps x k (Parser.iterateUpTo f s n) (Parser.iterateUpTo g (fill s) n)
      fun _ a b ls => b = fill a ∧ values s + ls = values a ∧ I a := by
  induction n with
  | zero => exact fun k s hs => pure ⟨rfl, by simp, hs⟩
  | succ n ih =>
    intro k s hs
    refine (hf k s hs).bind fun m o o' ls hR => ?_
    obtain ⟨rfl, hls, hI⟩ := hR
    cases o with
    | none => exact pure ⟨rfl, by simpa using hls, hs⟩
    | some s' =>
      refine (ih m s' (hI s' rfl)).mono fun _ a b ls' hR => ?_
      refine ⟨hR.1, ?_, hR.2.2⟩
      rw [← hR.2.1, ← add_assoc, hls]
      rfl

theorem iterate {f g : σ → Parser (Option σ)} {fill : σ → σ} {values : σ → Multiset Leaf}
    {I : σ → Prop} {s : σ} (hs : I s)
    (hf : ∀ m s, I s → Keeps x m (f s) (g (fill s)) fun _ o o' ls =>
      o' = o.map fill ∧ values s + ls = values (o.getD s) ∧ ∀ s' ∈ o, I s') :
    Keeps x k (Parser.iterate f s) (Parser.iterate g (fill s))
      fun _ a b ls => b = fill a ∧ values s + ls = values a ∧ I a :=
  remaining (iterateUpTo hf _ k s hs)

theorem afterCommas (hp : ∀ m, Keeps x m p q (Means fill values)) :
    Keeps x k (Parser.afterCommas p) (Parser.afterCommas q)
      (Means (List.map fill) fun as => (as.map values).sum) :=
  many fun _ => optional (eatSymbol ",") hp

theorem commaSeparated (hp : ∀ m, Keeps x m p q (Means fill values)) :
    Keeps x k (Parser.commaSeparated p) (Parser.commaSeparated q)
      (Means (List.map fill) fun as => (as.map values).sum) :=
  (hp k).andThen fun _ a => (afterCommas hp).andThen fun _ as => pure ⟨rfl, by simp⟩

/-- What is read between parentheses, if the place behind it does not matter. -/
theorem parenthesized (hp : ∀ m, Keeps x m p q R) (hR : ∀ m m' a b ls, R m a b ls → R m' a b ls) :
    Keeps x k (Parser.parenthesized p) (Parser.parenthesized q) R :=
  (expectSymbol "(").skip fun m _ => (hp m).bind fun m a b ls h =>
    (expectSymbol ")").skip fun m' _ => pure (by simpa [After] using hR m m' a b ls h)

/-- Elements of which only the kind of their values matters. -/
theorem commaSeparated_rel {Q : α → α → Prop} {V : Leaf → Prop}
    (hp : ∀ m, Keeps x m p q fun _ a b ls => Q a b ∧ ∀ l ∈ ls, V l) :
    Keeps x k (Parser.commaSeparated p) (Parser.commaSeparated q)
      fun _ as bs ls => List.Forall₂ Q as bs ∧ ∀ l ∈ ls, V l := by
  have hadd {ls ls' : Multiset Leaf} (h : ∀ l ∈ ls, V l) (h' : ∀ l ∈ ls', V l) :
      ∀ l ∈ ls + ls', V l := fun l hl => (Multiset.mem_add.mp hl).elim (h l) (h' l)
  have hmany (n m : Nat) : Keeps x m (Parser.manyUpTo (Parser.optional (Parser.eatSymbol ",") p) n)
      (Parser.manyUpTo (Parser.optional (Parser.eatSymbol ",") q) n)
      fun _ as bs ls => List.Forall₂ Q as bs ∧ ∀ l ∈ ls, V l := by
    induction n generalizing m with
    | zero => exact pure ⟨.nil, by simp⟩
    | succ n ih =>
      have hstep : Keeps x m (Parser.optional (Parser.eatSymbol ",") p)
          (Parser.optional (Parser.eatSymbol ",") q)
          fun _ o o' ls => Option.Rel Q o o' ∧ ∀ l ∈ ls, V l :=
        test (eatSymbol ",") (fun j => (hp j).bind fun _ _ _ _ h => pure ⟨.some h.1, by simpa using h.2⟩)
          fun _ => pure ⟨.none, by simp⟩
      refine hstep.bind fun j o o' _ ho => ?_
      obtain ⟨ho, hls⟩ := ho
      cases ho with
      | none => exact pure ⟨.nil, by simpa using hls⟩
      | some h =>
        exact (ih j).bind fun _ _ _ _ hs => pure ⟨.cons h hs.1, by simpa using hadd hls hs.2⟩
  exact (hp k).bind fun m a b _ h => Keeps.bind (.remaining (hmany _ m)) fun _ _ _ _ hs =>
    pure ⟨.cons h.1 hs.1, by simpa using hadd h.2 hs.2⟩

/-! ### Results without values -/

theorem optional_same {t u : Parser Bool} (ht : Keeps x k t u Same) (hp : ∀ m, Keeps x m p q Same) :
    Keeps x k (Parser.optional t p) (Parser.optional u q) Same :=
  test ht (fun m => (hp m).skip fun _ _ => pure ⟨rfl, rfl⟩) fun _ => pure ⟨rfl, rfl⟩

theorem many_same {p q : Parser (Option α)} (hp : ∀ m, Keeps x m p q Same) :
    Keeps x k (Parser.many p) (Parser.many q) Same := by
  refine Keeps.mono (@many α x k id (fun _ => 0) p q fun m => (hp m).mono ?_) ?_
  · rintro _ _ o _ ⟨rfl, rfl⟩
    exact ⟨by simp, by cases o <;> rfl⟩
  · rintro _ _ as _ ⟨rfl, rfl⟩
    exact ⟨by simp, by simp⟩

theorem commaSeparated_same (hp : ∀ m, Keeps x m p q Same) :
    Keeps x k (Parser.commaSeparated p) (Parser.commaSeparated q) Same :=
  (hp k).skip fun _ _ => (many_same fun _ => optional_same (eatSymbol ",") hp).skip
    fun _ _ => pure ⟨rfl, rfl⟩

/-! ### Names -/

theorem name_at : Keeps x k Parser.name Parser.name fun m a b ls => m = k + 1 ∧ b = a ∧ ls = 0 := by
  refine peek (ite (by rw [x.token_filled, Token.isName_fill]) (fun h => ?_) fun _ => missing _)
  have hplain := Filling.Plain.of_name h
  rw [hplain.token]
  exact (advance hplain).bind fun m _ _ _ hm => pure ⟨hm.1, rfl, by simp [hm.2.2.2]⟩

theorem name : Keeps x k Parser.name Parser.name Same :=
  name_at.mono fun _ _ _ _ h => h.2

theorem dottedPart : Keeps x k Parser.dottedPart Parser.dottedPart Same :=
  looks (peekSymbol ".") (fun h => (advance_same (.of_symbol h)).skip fun _ _ =>
    name.skip fun _ _ => pure ⟨rfl, rfl⟩) fun _ => pure ⟨rfl, rfl⟩

theorem qualifiedName : Keeps x k Parser.qualifiedName Parser.qualifiedName Same :=
  name.skip fun _ _ => (many_same fun _ => dottedPart).skip fun _ _ => pure ⟨rfl, rfl⟩

theorem nameList : Keeps x k Parser.nameList Parser.nameList Same :=
  parenthesized (fun _ => commaSeparated_same fun _ => name) fun _ _ _ _ _ h => h

theorem optionalNameList : Keeps x k Parser.optionalNameList Parser.optionalNameList Same :=
  looks (peekSymbol "(") (fun _ => nameList) fun _ => pure ⟨rfl, rfl⟩

end Keeps

end SqlDialects
