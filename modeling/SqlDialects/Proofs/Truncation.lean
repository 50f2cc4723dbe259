import SqlDialects.Proofs.Independence
import SqlDialects.Proofs.Primaries
import SqlDialects.Proofs.Vocabulary

/-!
# Reading tokens that are cut off

* `Token.joins` : a reserved word that the grammar takes only with the next token behind it;
* `Cut` : a list of tokens and how many of them are kept;
* `Cut.Waits` : a state at the first word of a phrase that is cut off behind it;
* `Cut.Late` : a state on the kept tokens in which a parser knows where they end;
* `Cut.Blames` : the faults that a cut may cause;
* `Cuts` : where one parser reads the whole, another does the same on the kept tokens, or it comes to
  their end and fails, if at all, as a cut may make it fail;
* how the combinators and the small steps of the grammar keep this.

Both parsers start at the same cursor, and as long as they see the same tokens they leave the same
notes. A parser that has come to the end is followed alone, since the whole tells nothing about it
any more. All this is said about one depth of nesting, since at the greatest one a level down is refused.
-/

namespace SqlDialects

open SqlDialects.Parser

theorem Cursor.furthest_note (c : Cursor) (k : Nat) (what : String) :
    (c.note k what).furthest = max c.furthest k := by
  unfold Cursor.note
  split
  · simp only
    omega
  · split
    · simp only
      omega
    · omega

/-- The reserved words that the grammar takes only with the parenthesis behind them. -/
def openerWords : List String := ["ON", "CAST", "EXISTS"] ++ keywordFunctions

/-- The words that start a phrase the grammar asks for as a whole. -/
def phraseWords : List String := ["ORDER", "GROUP", "PARTITION", "CURRENT", "NOT", "PRIMARY", "IF"]

/-- Whether `t` is a reserved word that the grammar takes only with `next` behind it, which it looks at without
asking for it. -/
def Token.joins (t next : Token) : Bool :=
  t.kind == .keyword &&
    (Text.sameWord t.text "NOT" && ["IN", "LIKE", "BETWEEN", "ILIKE"].any next.isWord ||
      openerWords.contains (Text.upper t.text) && next.isSymbol "(")

/-- The tokens from `k` on are `n` names with a dot behind each of them, and a star. -/
structure Input.StarAt (i : Input) (k n : Nat) : Prop where
  names : ∀ j < n, (i.token (k + 2 * j)).isName = true ∧ (i.token (k + 2 * j + 1)).isSymbol "." = true
  star : (i.token (k + 2 * n)).isSymbol "*" = true

/-- The tokens `whole`, of which the first `size` are kept; `finish` is the end that is put behind
them. -/
structure Cut where
  whole : Input
  size : Nat
  finish : Token
  inside : size < whole.tokens.size
  finish_kind : finish.kind = .finish
  whole_finish : whole.finish.kind = .finish
  readable : whole.dialect.Readable
  /-- A semicolon joins no operands. -/
  semicolon : whole.dialect.reading.operator? ";" = none
  accepts : whole.dialect.reading.unknownFunctions = .accept
  /-- Exactly the words that are marked as reserved are reserved. -/
  lexed : ∀ t ∈ whole.tokens, t.shape.IsLexed whole.dialect
  safeCast : ∀ w ∈ whole.dialect.writing.safeCast, w ∉ whole.dialect.lexical.reserved
  /-- No phrase starts like the time. -/
  phrases : ∀ w ∈ phraseWords, ∀ entry ∈ whole.dialect.reading.nowWords, entry.1 ≠ w

namespace Cut

variable {x : Cut} {c e : Cursor} {α β : Type}

/-- The tokens that are kept. -/
def piece (x : Cut) : Input := ⟨x.whole.dialect, x.whole.tokens.take x.size, x.finish⟩

/-- The token `n` places before the end of the kept ones. -/
def back (x : Cut) (n : Nat) : Token := x.piece.token (x.size - n)

/-- Whether the last token that is kept is one that the grammar takes only with the next one. -/
def severed (x : Cut) : Bool := (x.back 1).joins (x.whole.token x.size)

/-- A qualified star starts at `k` before the cut, which parts it. -/
def Parted (x : Cut) (k : Nat) : Prop := ∃ n, x.whole.StarAt k n ∧ k < x.size ∧ x.size ≤ k + 2 * n

theorem piece_size (x : Cut) : x.piece.tokens.size = x.size := by
  have := x.inside
  simp only [piece, Array.take_eq_extract, Array.size_extract]
  omega

theorem token_of_lt {k : Nat} (hk : k < x.size) : x.piece.token k = x.whole.token k := by
  have := x.inside
  simp only [piece, Input.token, Array.take_eq_extract, Array.getElem?_extract]
  rw [if_pos (by omega), Nat.zero_add, Array.getElem?_eq_getElem (by omega)]
  rfl

theorem token_of_le {k : Nat} (hk : x.size ≤ k) : x.piece.token k = x.finish := by
  have hsize := x.piece_size
  simp only [Input.token]
  rw [Array.getElem?_eq_none (by omega)]
  rfl

/-- Before the cut the next tokens are the same. -/
theorem ahead_eq {n k : Nat} (hk : k < n) (hn : n ≤ x.size) :
    x.whole.token (x.size - n + k) = x.back (n - k) := by
  rw [back, token_of_lt (by omega), show x.size - (n - k) = x.size - n + k by omega]

theorem back_zero (x : Cut) : x.back 0 = x.finish := token_of_le (Nat.le_refl _)

theorem isSymbol_finish (x : Cut) (symbol : String) : x.finish.isSymbol symbol = false := by
  simp [Token.isSymbol, x.finish_kind]

theorem isWord_finish (x : Cut) (word : String) : x.finish.isWord word = false := by
  simp [Token.isWord, Token.isBareWord, x.finish_kind]

/-- A parser stands at the last token that is kept, which starts a phrase, and has asked for the rest. -/
structure Waits (x : Cut) (c : Cursor) : Prop where
  last : c.index + 1 = x.size
  asked : x.size ≤ c.furthest
  bare : (x.back 1).isBareWord = true
  phrase : Text.upper (x.back 1).text ∈ phraseWords

/-- A parser knows where the kept tokens end: it stands there, or one token before it and is stuck, or it waits for
the rest of a phrase with a level left. -/
def Late (x : Cut) (c : Cursor) : Prop :=
  c.index = x.size ∨ c.index + 1 = x.size ∧ x.severed = true ∨ x.Waits c ∧ c.depth < maxDepth

theorem Late.rest (h : x.Late c) : ∃ n ≤ 1, c.index + n = x.size := by
  rcases h with h | h | h
  · exact ⟨0, Nat.zero_le 1, h⟩
  · exact ⟨1, Nat.le_refl 1, h.1⟩
  · exact ⟨1, Nat.le_refl 1, h.1.last⟩

theorem token_of_last (h : c.index + 1 = x.size) : x.piece.token c.index = x.back 1 := by
  rw [back, show x.size - 1 = c.index by omega]

theorem waits_of_isWord {w : String} (hw : Text.upper w ∈ phraseWords) (hword : (x.back 1).isWord w = true)
    (hlast : c.index + 1 = x.size) (hasked : x.size ≤ c.furthest) : x.Waits c := by
  rw [Token.isWord, Bool.and_eq_true, Text.sameWord_iff] at hword
  refine ⟨hlast, hasked, hword.1, ?_⟩
  rw [hword.2]
  exact hw

/-- A parser that stands there still waits when it has asked for more. -/
theorem Waits.still (h : x.Waits c) (hindex : e.index = c.index) (hle : c.furthest ≤ e.furthest) : x.Waits e :=
  ⟨hindex ▸ h.last, Nat.le_trans h.asked hle, h.bare, h.phrase⟩

theorem Late.still (h : x.Late c) (hindex : e.index = c.index) (hle : c.furthest ≤ e.furthest)
    (hdepth : e.depth ≤ c.depth) : x.Late e := by
  rcases h with h | h | ⟨h, hlevel⟩
  · exact .inl (hindex ▸ h)
  · exact .inr (.inl (hindex ▸ h))
  · exact .inr (.inr ⟨h.still hindex hle, Nat.lt_of_le_of_lt hdepth hlevel⟩)

theorem Waits.note (h : x.Waits c) (k : Nat) (what : String) : x.Waits (c.note k what) :=
  h.still (c.note_index k what) (c.furthest_note k what ▸ Nat.le_max_left _ _)

/-- A word that starts a phrase is no other word. -/
theorem Waits.other (h : x.Waits c) {word : String} (hw : Text.upper word ∉ phraseWords) :
    (x.back 1).isWord word = false := by
  by_contra hword
  rw [Bool.not_eq_false, Token.isWord, Bool.and_eq_true, Text.sameWord_iff] at hword
  exact hw (hword.2 ▸ h.phrase)

theorem Waits.checkWord (h : x.Waits c) {word : String} (hno : (x.back 1).isWord word = false) :
    ∃ e, Parser.checkWord word x.piece c = (.ok false, e) ∧ x.Waits e := by
  refine ⟨_, ?_, h.note c.index (Text.upper word)⟩
  simp [Parser.checkWord, Parser.peekWord, Parser.peek, Parser.peekNth, Parser.expectHere, Parser.expectNth,
    Bind.bind, Pure.pure, look, token_of_last h.last, hno]

theorem Waits.eatWord (h : x.Waits c) {word : String} (hno : (x.back 1).isWord word = false) :
    ∃ e, Parser.eatWord word x.piece c = (.ok false, e) ∧ x.Waits e := by
  obtain ⟨e, hcheck, he⟩ := h.checkWord hno
  exact ⟨e, Parser.bind_ok hcheck, he⟩

theorem Waits.eatSymbol (h : x.Waits c) (symbol : String) :
    ∃ e, Parser.eatSymbol symbol x.piece c = (.ok false, e) ∧ x.Waits e := by
  have hno : (x.back 1).isSymbol symbol = false := by
    have hbare := h.bare
    unfold Token.isBareWord at hbare
    unfold Token.isSymbol
    split at hbare <;> simp_all
  refine ⟨_, ?_, h.note c.index s!"'{symbol}'"⟩
  simp [Parser.eatSymbol, Parser.checkSymbol, Parser.peekSymbol, Parser.peek, Parser.peekNth, Parser.expectHere,
    Parser.expectNth, Bind.bind, Pure.pure, look, token_of_last h.last, hno]

theorem Waits.index_le (h : x.Waits c) (he : x.Waits e) : c.index ≤ e.index :=
  Nat.le_of_succ_le_succ (Nat.le_of_eq (h.last.trans he.last.symm))

/-- The faults that a cut may cause. -/
inductive Blames (x : Cut) : Fault → Prop where
  /-- The kept tokens end too early. -/
  | finish (expected : List String) : Blames x (.unexpected x.finish.position expected "end of input")
  /-- A qualified star that has lost its star is read as an expression, and no level is left for it. -/
  | star {k : Nat} (h : x.Parted k) : Blames x (.unexpected (x.piece.token k).position
      [s!"at most {maxDepth} levels of nesting"] (x.piece.token k).describe)
  /-- The `LIMIT` that `OFFSET` depends on is missing. -/
  | clause {t : Token} (ht : t ∈ x.piece.tokens) (hword : t.isWord "OFFSET" = true) :
    Blames x (.unexpected t.position ["LIMIT before OFFSET"] t.describe)
  /-- The last word has lost the token that it needs. -/
  | severed (h : x.severed = true) (expected : List String) :
    Blames x (.unexpected (x.back 1).position expected (x.back 1).describe)

/-- How a parser may end that started at `c` and has come to the end of the kept tokens. -/
inductive Ends (x : Cut) (c : Cursor) : Except Fault α × Cursor → Prop
  | ok {a : α} {e : Cursor} (hle : c.index ≤ e.index) (hlate : x.Late e) : Ends x c (.ok a, e)
  | fault {f : Fault} {e : Cursor} (h : x.Blames f) : Ends x c (.error f, e)

theorem Ends.blames {f : Fault} (h : x.Ends c ((.error f, e) : Except Fault α × Cursor)) : x.Blames f := by
  cases h with
  | fault h => exact h

theorem Ends.late {a : α} (h : x.Ends c (.ok a, e)) : c.index ≤ e.index ∧ x.Late e := by
  cases h with
  | ok hle hlate => exact ⟨hle, hlate⟩

theorem Ends.weaken (hle : c.index ≤ e.index) {r : Except Fault α × Cursor} (h : x.Ends e r) :
    x.Ends c r := by
  cases h with
  | ok hle' hlate => exact .ok (Nat.le_trans hle hle') hlate
  | fault h => exact .fault h

/-- What follows a parser that has come to the end starts there. -/
theorem Ends.bind {q : Parser α} {g : α → Parser β} (hq : x.Ends c (q x.piece c))
    (hg : ∀ a e, q x.piece c = (.ok a, e) → c.index ≤ e.index → x.Late e → x.Ends e (g a x.piece e)) :
    x.Ends c ((q >>= g) x.piece c) := by
  match hrun : q x.piece c with
  | (.ok a, e) =>
    rw [hrun] at hq
    obtain ⟨hle, hlate⟩ := hq.late
    rw [Parser.bind_ok hrun]
    exact (hg a e hrun hle hlate).weaken hle
  | (.error f, e) =>
    rw [hrun] at hq
    rw [Parser.bind_error hrun]
    exact .fault hq.blames

/-- The kept tokens as a part of themselves. -/
def self (x : Cut) : Excerpt :=
  .ofInput x.piece x.semicolon (by simp [Token.isStop, piece, x.finish_kind])

/-- What holds of the tokens that are left where productions are followed on a part holds here. -/
theorem rest_of_mirrors {n : Nat} {q : Parser α} {Q : Nat → α → Prop} (h : Mirrors x.self n q q Q)
    (hc : c.index + n = x.size) {a : α} (hrun : q x.piece c = (.ok a, e)) :
    ∃ m ≤ n, e.index + m = x.size ∧ Q m a := by
  obtain ⟨m, hm, hrest, ha⟩ := h.leaves (hc.trans x.piece_size.symm) hrun
  exact ⟨m, hm, hrest.trans x.piece_size, ha⟩

theorem of_mirrors {n : Nat} {q : Parser α} {Q : Nat → α → Prop} (h : Mirrors x.self n q q Q)
    (hc : c.index + n = x.size) {a : α} (hrun : q x.piece c = (.ok a, e)) : Q (x.size - e.index) a := by
  obtain ⟨m, -, hrest, hm⟩ := rest_of_mirrors h hc hrun
  rwa [show x.size - e.index = m by omega]

/-- On the kept tokens, `q` takes a token if it gives a result. -/
def Moves (x : Cut) (q : Parser (Option α)) : Prop :=
  ∀ n c, c.index + n = x.size → ∀ o e, q x.piece c = (.ok o, e) → Steps n (x.size - e.index) o

theorem Moves.of_mirrors {q : Parser (Option α)} (h : ∀ n, Mirrors x.self n q q (Steps n)) :
    x.Moves q :=
  fun n _ hc _ _ hrun => Cut.of_mirrors (h n) hc hrun

theorem Ends.pure {a : α} (hc : x.Late c) : x.Ends c ((Pure.pure a : Parser α) x.piece c) :=
  .ok (Nat.le_refl _) hc

/-- A parser that has asked about the end fails there. -/
theorem Ends.unexpected (h : x.size ≤ max c.furthest c.index) :
    x.Ends c ((Parser.unexpected : Parser α) x.piece c) := by
  have htoken : x.piece.token (max c.furthest c.index) = x.finish := token_of_le h
  simp only [Parser.unexpected, htoken, Token.describe, x.finish_kind]
  exact .fault (.finish _)

theorem Waits.unexpected (h : x.Waits c) : x.Ends c ((Parser.unexpected : Parser α) x.piece c) :=
  .unexpected (Nat.le_trans h.asked (Nat.le_max_left _ _))

theorem tooDeep_run (i : Input) (c : Cursor) : (Parser.tooDeep : Parser α) i c = (.error (.unexpected
    (i.token c.index).position [s!"at most {maxDepth} levels of nesting"] (i.token c.index).describe), c) := rfl

/-- Where the kept tokens end and no level is left, they are too short or the last word has lost a token. -/
theorem Ends.refused (hlate : x.Late c) (hdepth : maxDepth ≤ c.depth) :
    x.Ends c ((Parser.tooDeep : Parser α) x.piece c) := by
  rw [tooDeep_run]
  rcases hlate with hend | ⟨hlast, hsevered⟩ | hwaits
  · rw [token_of_le (Nat.le_of_eq hend.symm), Token.describe, x.finish_kind]
    exact .fault (.finish _)
  · rw [token_of_last hlast]
    exact .fault (.severed hsevered _)
  · omega

/-- A parser one level down comes to the end as it does. -/
theorem Ends.level {q : Parser α} (hdepth : c.depth < maxDepth) (h : x.Ends c.down (q x.piece c.down)) :
    x.Ends c (Parser.level q x.piece c) := by
  cases hrun : q x.piece c.down with
  | mk r d =>
    rw [hrun] at h
    rw [Parser.level_of_lt hdepth hrun]
    cases h with
    | ok hle hlate => exact .ok hle (hlate.still rfl (Nat.le_refl _) (Nat.sub_le _ _))
    | fault h => exact .fault h

end Cut

/-! ## The relation -/

/-- With `n` of the kept tokens to go and `D` levels down, `q` on them comes to their end, or it has the same result
as `p` on the whole and leaves the same state; where `p` fails, nothing is said about `q`. -/
def CutsAt {α : Type} (x : Cut) (D n : Nat) (p q : Parser α) : Prop :=
  ∀ c, c.index + n = x.size → c.depth = D →
    (x.Late c → x.Ends c (q x.piece c)) ∧
      (¬x.Late c → ∀ a e, p x.whole c = (.ok a, e) →
        (q x.piece c = (.ok a, e) ∧ c.index ≤ e.index ∧ e.index ≤ x.size) ∨ x.Ends c (q x.piece c))

/-- The same with any number of tokens less than `N` to go. -/
def Cuts {α : Type} (x : Cut) (D N : Nat) (p q : Parser α) : Prop := ∀ n < N, CutsAt x D n p q

namespace CutsAt

variable {α β : Type} {x : Cut} {D n : Nat} {p q : Parser α} {f g : α → Parser β}

/-- A parser that comes to the end whatever the whole is. -/
theorem ends (h : ∀ c, c.index + n = x.size → c.depth = D → x.Ends c (q x.piece c)) : CutsAt x D n p q :=
  fun c hc hd => ⟨fun _ => h c hc hd, fun _ _ _ _ => .inr (h c hc hd)⟩

/-- What fails on the whole has to be followed only from the end on. -/
theorem of_fails (hp : Fails p)
    (h : ∀ c, c.index + n = x.size → c.depth = D → x.Late c → x.Ends c (q x.piece c)) : CutsAt x D n p q := by
  refine fun c hc hd => ⟨h c hc hd, fun _ a e hrun => ?_⟩
  obtain ⟨f, e', hfail⟩ := hp x.whole c
  rw [hfail] at hrun
  cases hrun

/-- One parser behind another, with what is known about the results of the first and about the tokens
that are left then. -/
theorem bindOf {P : Nat → α → Prop}
    (hP : ∀ c, c.index + n = x.size → ∀ a e, q x.piece c = (.ok a, e) → P (x.size - e.index) a)
    (hp : CutsAt x D n p q) (hf : ∀ m ≤ n, ∀ a, P m a → CutsAt x D m (f a) (g a)) :
    CutsAt x D n (p >>= f) (q >>= g) := by
  intro c hc hd
  have hnext {e : Cursor} (hle : c.index ≤ e.index) (hsize : e.index ≤ x.size) {a : α}
      (hrun : q x.piece c = (.ok a, e)) : CutsAt x D (x.size - e.index) (f a) (g a) ∧
        e.index + (x.size - e.index) = x.size ∧ e.depth = D :=
    ⟨hf _ (by omega) a (hP c hc a e hrun), by omega, (Parser.depth_of_run hrun).trans hd⟩
  have hlate (h : x.Ends c (q x.piece c)) : x.Ends c ((q >>= g) x.piece c) := by
    refine h.bind fun a e hrun hle he => ?_
    have hsize : e.index ≤ x.size := by
      obtain ⟨m, -, hm⟩ := he.rest
      omega
    obtain ⟨hcuts, hrest, hdepth⟩ := hnext hle hsize hrun
    exact (hcuts e hrest hdepth).1 he
  refine ⟨fun hc' => hlate ((hp c hc hd).1 hc'), fun hearly b e hrun => ?_⟩
  match hpr : p x.whole c with
  | (.error y, d) =>
    simp only [Bind.bind, hpr] at hrun
    cases hrun
  | (.ok a, d) =>
    rcases (hp c hc hd).2 hearly a d hpr with ⟨hq, hle, hsize⟩ | h
    · obtain ⟨hcuts, hrest, hdepth⟩ := hnext hle hsize hq
      have hstep : (q >>= g) x.piece c = g a x.piece d := by simp only [Bind.bind, hq]
      have hrun' : f a x.whole d = (.ok b, e) := by simpa only [Bind.bind, hpr] using hrun
      rw [hstep]
      by_cases hlate' : x.Late d
      · exact .inr (((hcuts d hrest hdepth).1 hlate').weaken hle)
      · rcases (hcuts d hrest hdepth).2 hlate' b e hrun' with ⟨hg, hle', hsize'⟩ | h
        · exact .inl ⟨hg, Nat.le_trans hle hle', hsize'⟩
        · exact .inr (h.weaken hle)
    · exact .inr (hlate h)

theorem bind (hp : CutsAt x D n p q) (hf : ∀ m ≤ n, ∀ a, CutsAt x D m (f a) (g a)) :
    CutsAt x D n (p >>= f) (q >>= g) :=
  bindOf (P := Any) (fun _ _ _ _ _ => trivial) hp fun m hm a _ => hf m hm a

/-- One parser behind another, with what is known about the tokens that the first takes. -/
theorem bindMirrors {Q : Nat → α → Prop} (hq : Mirrors x.self n q q Q) (hp : CutsAt x D n p q)
    (hf : ∀ m ≤ n, ∀ a, Q m a → CutsAt x D m (f a) (g a)) : CutsAt x D n (p >>= f) (q >>= g) :=
  bindOf (fun _ hc _ _ hrun => Cut.of_mirrors hq hc hrun) hp hf

/-- A step that moves only as far as it does on the whole. -/
theorem step (h : ∀ c, c.index + n = x.size → x.Late c → x.Ends c (q x.piece c))
    (hsame : ∀ c, c.index + n = x.size → 0 < n → ∀ a e, p x.whole c = (.ok a, e) →
      q x.piece c = (.ok a, e) ∧ c.index ≤ e.index ∧ e.index ≤ x.size) : CutsAt x D n p q := by
  refine fun c hc _ => ⟨h c hc, fun hearly a e hrun => .inl (hsame c hc ?_ a e hrun)⟩
  by_contra hn
  exact hearly (.inl (by omega))

/-- A step that stays at its token and may leave notes. -/
theorem stays {f : Cursor → α} {g : Cursor → Cursor} (hrun : ∀ i c, p i c = (.ok (f c), g c))
    (hindex : ∀ c, (g c).index = c.index) (hasked : ∀ c, c.furthest ≤ (g c).furthest) : CutsAt x D n p p := by
  refine step (fun c _ hlate => ?_) fun c hc hn a e hok => ?_
  · rw [hrun]
    have hdepth := Parser.depth_of_run (hrun x.piece c)
    exact .ok (Nat.le_of_eq (hindex c).symm) (hlate.still (hindex c) (hasked c) (Nat.le_of_eq hdepth))
  · rw [hrun] at hok ⊢
    obtain rfl : g c = e := congrArg Prod.snd hok
    exact ⟨hok, Nat.le_of_eq (hindex c).symm, by rw [hindex]; omega⟩

theorem pure (a : α) : CutsAt x D n (Pure.pure a) (Pure.pure a) :=
  stays (fun _ _ => rfl) (fun _ => rfl) fun _ => Nat.le_refl _

theorem of_run {p' q' : Parser α} (hp : ∀ c, p x.whole c = p' x.whole c)
    (hq : ∀ c, q x.piece c = q' x.piece c) (h : CutsAt x D n p' q') : CutsAt x D n p q := by
  intro c hc hd
  rw [hp, hq]
  exact h c hc hd

theorem dialect {f g : Dialect → Parser β} (h : CutsAt x D n (f x.whole.dialect) (g x.whole.dialect)) :
    CutsAt x D n (Parser.dialect >>= f) (Parser.dialect >>= g) :=
  of_run (fun _ => rfl) (fun _ => rfl) h

theorem rules {f g : ReadingRules → Parser β}
    (h : CutsAt x D n (f x.whole.dialect.reading) (g x.whole.dialect.reading)) :
    CutsAt x D n (Parser.rules >>= f) (Parser.rules >>= g) :=
  of_run (fun _ => rfl) (fun _ => rfl) h

theorem supports (y : Construct) {f g : Bool → Parser β} (h : ∀ b, CutsAt x D n (f b) (g b)) :
    CutsAt x D n (Parser.supports y >>= f) (Parser.supports y >>= g) :=
  of_run (fun _ => rfl) (fun _ => rfl) (h (x.whole.dialect.supports y))

/-- The next token. -/
theorem peek {f g : Token → Parser β} (h : CutsAt x D n (f (x.back n)) (g (x.back n))) :
    CutsAt x D n (Parser.peek >>= f) (Parser.peek >>= g) := by
  intro c hc hd
  have hindex : c.index = x.size - n := by omega
  have hq : (Parser.peek >>= g) x.piece c = g (x.back n) x.piece c := by
    rw [Cut.back, ← hindex]
    rfl
  rw [hq]
  refine ⟨(h c hc hd).1, fun hearly a e hrun => (h c hc hd).2 hearly a e ?_⟩
  have hn : c.index < x.size := by
    by_contra hn
    exact hearly (.inl (by omega))
  rw [Cut.back, ← hindex, x.token_of_lt hn]
  exact hrun

theorem peekWord (word : String) {f g : Bool → Parser β}
    (h : CutsAt x D n (f ((x.back n).isWord word)) (g ((x.back n).isWord word))) :
    CutsAt x D n (Parser.peekWord word >>= f) (Parser.peekWord word >>= g) :=
  peek (f := fun t => f (t.isWord word)) (g := fun t => g (t.isWord word)) h

theorem peekSymbol (symbol : String) {f g : Bool → Parser β}
    (h : CutsAt x D n (f ((x.back n).isSymbol symbol)) (g ((x.back n).isSymbol symbol))) :
    CutsAt x D n (Parser.peekSymbol symbol >>= f) (Parser.peekSymbol symbol >>= g) :=
  peek (f := fun t => f (t.isSymbol symbol)) (g := fun t => g (t.isSymbol symbol)) h

/-- The token `k` places behind the next one. On the whole it may be one that is not kept. -/
theorem peekNth (k : Nat) {f g : Token → Parser β}
    (h : n ≤ x.size → CutsAt x D n (f (x.whole.token (x.size - n + k))) (g (x.back (n - k)))) :
    CutsAt x D n (Parser.peekNth k >>= f) (Parser.peekNth k >>= g) := by
  intro c hc hd
  have hindex : c.index = x.size - n := by omega
  have hp : (Parser.peekNth k >>= f) x.whole c = f (x.whole.token (x.size - n + k)) x.whole c := by
    rw [← hindex]
    rfl
  have hq : (Parser.peekNth k >>= g) x.piece c = g (x.back (n - k)) x.piece c := by
    have htoken : x.piece.token (c.index + k) = x.back (n - k) := by
      rcases Nat.lt_or_ge k n with hk | hk
      · rw [Cut.back, show x.size - (n - k) = c.index + k by omega]
      · rw [Cut.token_of_le (by omega), Nat.sub_eq_zero_of_le hk, Cut.back_zero]
    rw [← htoken]
    rfl
  rw [hp, hq]
  exact h (by omega) c hc hd

theorem advance : CutsAt x D n Parser.advance Parser.advance := by
  have hsize := x.piece_size
  have hinside := x.inside
  refine step (fun c hc hlate => ?_) fun c hc hn a e hrun => ?_
  · simp only [Parser.advance]
    rcases hlate with h | h | h
    · rw [if_neg (by omega)]
      exact .ok (Nat.le_refl _) (.inl h)
    · rw [if_pos (by omega)]
      exact .ok (Nat.le_succ _) (.inl h.1)
    · have hlast := h.1.last
      rw [if_pos (by omega)]
      exact .ok (Nat.le_succ _) (.inl hlast)
  · simp only [Parser.advance] at hrun ⊢
    rw [if_pos (by omega)] at hrun ⊢
    obtain ⟨rfl, rfl⟩ : x.whole.token c.index = a ∧ { c with index := c.index + 1 } = e := by
      simpa using hrun
    rw [Cut.token_of_lt (by omega)]
    exact ⟨rfl, Nat.le_succ _, by simp only; omega⟩

/-- The last token is taken, whatever the whole is. -/
theorem last {g : Token → Parser β} {p : Parser β} (hg : ∀ t, CutsAt x D 0 (g t) (g t)) :
    CutsAt x D 1 p (Parser.advance >>= g) := by
  refine ends fun c hc hd => ?_
  have hsize := x.piece_size
  have hrun : Parser.advance x.piece c =
      (.ok (x.piece.token c.index), { c with index := c.index + 1 }) := by
    simp only [Parser.advance]
    rw [if_pos (by omega)]
  rw [Parser.bind_ok hrun]
  exact ((hg _ { c with index := c.index + 1 } hc hd).1 (.inl hc)).weaken (Nat.le_succ c.index)

/-- If the last word has lost the token that it needs, the whole does not matter. -/
theorem stuck (hs : x.severed = true) {p' : Parser α} (h : CutsAt x D 1 p' q) : CutsAt x D 1 p q :=
  ends fun c hc hd => (h c hc hd).1 (.inr (.inl ⟨hc, hs⟩))

/-- The token behind the next one is the same, or the cut parts the two. -/
theorem peekBehind {f g : Token → Parser β}
    (hsame : ∀ u, (n ≤ 1 → u = x.finish) → CutsAt x D n (f u) (g u))
    (hlast : n = 1 → x.severed = false → CutsAt x D 1 (f (x.whole.token x.size)) (g x.finish)) :
    CutsAt x D n (Parser.peekNth 1 >>= f) (Parser.peekNth 1 >>= g) := by
  refine peekNth 1 fun hsize => ?_
  by_cases htwo : 1 < n
  · rw [Cut.ahead_eq htwo hsize]
    exact hsame _ fun h => by omega
  · have hfinish : x.back (n - 1) = x.finish := by
      rw [show n - 1 = 0 by omega, x.back_zero]
    rw [hfinish]
    rcases Nat.eq_zero_or_pos n with rfl | hpos
    · exact ends fun c hc hd => (hsame x.finish (fun _ => rfl) c hc hd).1 (.inl hc)
    · obtain rfl : n = 1 := by omega
      cases hs : x.severed with
      | true => exact stuck hs (hsame x.finish fun _ => rfl)
      | false =>
        rw [Nat.sub_add_cancel hsize]
        exact hlast rfl hs

theorem note (k : Nat) (what : String) : CutsAt x D n (Parser.expectNth k what) (Parser.expectNth k what) :=
  stays (f := fun _ => ()) (g := fun c => c.note (c.index + k) what) (fun _ _ => rfl) (fun c => c.note_index _ what)
    fun c => c.furthest_note (c.index + k) what ▸ Nat.le_max_left _ _

theorem nextBind : CutsAt x D n Parser.nextBind Parser.nextBind :=
  stays (g := fun c => { c with binds := c.binds + 1 }) (fun _ _ => rfl) (fun _ => rfl) fun _ => Nat.le_refl _

theorem resetBinds : CutsAt x D n Parser.resetBinds Parser.resetBinds :=
  stays (g := fun c => { c with binds := 0 }) (fun _ _ => rfl) (fun _ => rfl) fun _ => Nat.le_refl _

theorem nameFunction (ns : List Name) : CutsAt x D n (Parser.nameFunction ns) (Parser.nameFunction ns) :=
  stays (g := fun c => { c with functions := ns :: c.functions }) (fun _ _ => rfl) (fun _ => rfl)
    fun _ => Nat.le_refl _

theorem atEnd : CutsAt x D n Parser.atEnd Parser.atEnd := by
  have hsize := x.piece_size
  have hinside := x.inside
  refine step (fun c _ hlate => .ok (Nat.le_refl _) hlate) fun c hc hn a e hrun => ?_
  obtain ⟨rfl, rfl⟩ : decide (x.whole.tokens.size ≤ c.index) = a ∧ c = e := by
    simpa [Parser.atEnd, look] using hrun
  refine ⟨?_, Nat.le_refl _, by omega⟩
  simp only [Parser.atEnd, look]
  rw [decide_eq_false (by omega), decide_eq_false (by omega)]

/-! ### Faults -/

theorem unexpected : CutsAt x D n (Parser.unexpected : Parser α) Parser.unexpected := by
  refine of_fails .unexpected fun c hc _ hlate => ?_
  rcases hlate with h | ⟨h, hstuck⟩ | h
  · exact Cut.Ends.unexpected (by omega)
  · by_cases hfurthest : x.size ≤ c.furthest
    · exact Cut.Ends.unexpected (by omega)
    · have htoken : x.piece.token (max c.furthest c.index) = x.back 1 := by
        rw [Cut.back]
        congr 1
        omega
      simp only [Parser.unexpected, htoken]
      exact .fault (.severed hstuck _)
  · exact h.1.unexpected

/-- What fails at the next token, where nothing is left. -/
theorem unexpectedNext (what : String) : CutsAt x D 0
    (Parser.peek >>= fun t => (Parser.unexpectedAt t what : Parser α))
    (Parser.peek >>= fun t => Parser.unexpectedAt t what) := by
  refine ends fun c hc _ => ?_
  have htoken : x.piece.token (c.index + 0) = x.finish := Cut.token_of_le (by omega)
  show x.Ends c (.error (.unexpected (x.piece.token (c.index + 0)).position [what]
    (x.piece.token (c.index + 0)).describe), c)
  rw [htoken, Token.describe, x.finish_kind]
  exact .fault (.finish [what])

/-- Where no level is left, none is entered. -/
theorem tooDeep (hD : maxDepth ≤ D) : CutsAt x D n (Parser.tooDeep : Parser α) Parser.tooDeep :=
  of_fails (.after fun _ => .unexpectedAt _ _) fun _ _ hd hlate => .refused hlate (hd.symm ▸ hD)

/-- Parsers one level down. What waits for the rest of a phrase may have no level left there, so it is followed
without one. -/
theorem level (hwaits : ∀ c, x.Waits c → c.depth = D + 1 → x.Ends c (q x.piece c)) (h : CutsAt x (D + 1) n p q) :
    CutsAt x D n (Parser.level p) (Parser.level q) := by
  intro c hc hd
  have hdown : c.down.depth = D + 1 := congrArg (· + 1) hd
  refine ⟨fun hlate => ?_, fun hearly a e hrun => ?_⟩
  · rcases Nat.lt_or_ge c.depth maxDepth with hdepth | hdepth
    · refine .level hdepth ?_
      rcases hlate with hend | hsevered | hwait
      · exact (h c.down hc hdown).1 (.inl hend)
      · exact (h c.down hc hdown).1 (.inr (.inl hsevered))
      · exact hwaits c.down (hwait.1.still rfl (Nat.le_refl _)) hdown
    · rw [show Parser.level q x.piece c = Parser.tooDeep x.piece c from if_pos hdepth]
      exact .refused hlate hdepth
  · rcases Parser.level_cases hrun with ⟨-, hrefused⟩ | ⟨hdepth, d, hinner, rfl⟩
    · cases hrefused
    · have hearly' : ¬x.Late c.down := fun hlate => hearly (hlate.imp_right (Or.imp_right fun hwait =>
        ⟨hwait.1.still rfl (Nat.le_refl _), hdepth⟩))
      rcases (h c.down hc hdown).2 hearly' a d hinner with ⟨hq, hle, hsize⟩ | hq
      · exact .inl ⟨Parser.level_of_lt hdepth hq, hle, hsize⟩
      · exact .inr (.level hdepth hq)

end CutsAt

/-! ## Combinators -/

namespace Cuts

variable {α β σ : Type} {x : Cut} {D N : Nat} {p q : Parser α} {f g : α → Parser β}

theorem mono {M : Nat} (h : Cuts x D M p q) (hN : N ≤ M) : Cuts x D N p q :=
  fun n hn => h n (Nat.lt_of_lt_of_le hn hN)

/-- What follows a parser that has come to the end. At most one of the kept tokens is left for it. -/
theorem behind {c : Cursor} (hq : x.Ends c (q x.piece c)) (hd : c.depth = D) (hf : ∀ a, Cuts x D 2 (f a) (g a)) :
    x.Ends c ((q >>= g) x.piece c) := by
  refine hq.bind fun a e hrun _ he => ?_
  obtain ⟨n, hn, hrest⟩ := he.rest
  exact (hf a n (Nat.lt_succ_of_le hn) e hrest ((Parser.depth_of_run hrun).trans hd)).1 he

theorem bind (hp : Cuts x D N p q) (hf : ∀ a, Cuts x D N (f a) (g a)) :
    Cuts x D N (p >>= f) (q >>= g) :=
  fun n hn => (hp n hn).bind fun m hm a => hf a m (Nat.lt_of_le_of_lt hm hn)

theorem pure (a : α) : Cuts x D N (Pure.pure a) (Pure.pure a) := fun _ _ => .pure a

theorem map {h : α → β} (hp : Cuts x D N p q) : Cuts x D N (h <$> p) (h <$> q) :=
  hp.bind fun _ => pure _

theorem unexpected : Cuts x D N (Parser.unexpected : Parser α) Parser.unexpected := fun _ _ => .unexpected

/-- Nothing behind a fault is reached. -/
theorem stop : Cuts x D N ((Parser.unexpected : Parser α) >>= f) (Parser.unexpected >>= g) := by
  refine fun n _ => .of_fails (.before .unexpected) fun c hc hd hlate => ?_
  refine Cut.Ends.bind ((CutsAt.unexpected c hc hd).1 hlate) fun a e hrun => ?_
  cases hrun

theorem tooDeep (hD : maxDepth ≤ D) : Cuts x D N (Parser.tooDeep : Parser α) Parser.tooDeep :=
  fun _ _ => .tooDeep hD

theorem dialect {f g : Dialect → Parser β} (h : Cuts x D N (f x.whole.dialect) (g x.whole.dialect)) :
    Cuts x D N (Parser.dialect >>= f) (Parser.dialect >>= g) :=
  fun n hn => .dialect (h n hn)

theorem dialectThen {f g : Dialect → Parser α} {h h' : α → Parser β}
    (hf : Cuts x D N (f x.whole.dialect >>= h) (g x.whole.dialect >>= h')) :
    Cuts x D N ((Parser.dialect >>= f) >>= h) ((Parser.dialect >>= g) >>= h') :=
  fun n hn => .of_run (fun _ => rfl) (fun _ => rfl) (hf n hn)

theorem rules {f g : ReadingRules → Parser β}
    (h : Cuts x D N (f x.whole.dialect.reading) (g x.whole.dialect.reading)) :
    Cuts x D N (Parser.rules >>= f) (Parser.rules >>= g) :=
  fun n hn => .rules (h n hn)

theorem supports (y : Construct) {f g : Bool → Parser β} (h : ∀ b, Cuts x D N (f b) (g b)) :
    Cuts x D N (Parser.supports y >>= f) (Parser.supports y >>= g) :=
  fun n hn => .supports y fun b => h b n hn

theorem peek {f g : Token → Parser β} (h : ∀ t, Cuts x D N (f t) (g t)) :
    Cuts x D N (Parser.peek >>= f) (Parser.peek >>= g) :=
  fun n hn => .peek (h _ n hn)

theorem advance : Cuts x D N Parser.advance Parser.advance := fun _ _ => .advance

theorem note (k : Nat) (what : String) :
    Cuts x D N (Parser.expectNth k what) (Parser.expectNth k what) :=
  fun _ _ => .note k what

theorem nextBind : Cuts x D N Parser.nextBind Parser.nextBind := fun _ _ => .nextBind

theorem resetBinds : Cuts x D N Parser.resetBinds Parser.resetBinds := fun _ _ => .resetBinds

theorem nameFunction (ns : List Name) : Cuts x D N (Parser.nameFunction ns) (Parser.nameFunction ns) :=
  fun _ _ => .nameFunction ns

theorem level (hwaits : ∀ c, x.Waits c → c.depth = D + 1 → x.Ends c (q x.piece c)) (h : Cuts x (D + 1) N p q) :
    Cuts x D N (Parser.level p) (Parser.level q) :=
  fun n hn => .level hwaits (h n hn)

theorem atEnd : Cuts x D N Parser.atEnd Parser.atEnd := fun _ _ => .atEnd

/-! ### Tests -/

/-- Two ways to go on behind a test. -/
theorem test {t u : Parser Bool} {p p' q q' : Parser α} (ht : Cuts x D N t u) (hp : Cuts x D N p p')
    (hq : Cuts x D N q q') :
    Cuts x D N (t >>= fun b => if b then p else q) (u >>= fun b => if b then p' else q') := by
  refine ht.bind fun b => ?_
  cases b with
  | true => exact hp
  | false => exact hq

theorem peekWord (word : String) : Cuts x D N (Parser.peekWord word) (Parser.peekWord word) :=
  peek fun _ => pure _

theorem peekSymbol (symbol : String) : Cuts x D N (Parser.peekSymbol symbol) (Parser.peekSymbol symbol) :=
  peek fun _ => pure _

theorem checkWord (word : String) : Cuts x D N (Parser.checkWord word) (Parser.checkWord word) :=
  test (peekWord word) (pure _) ((note _ _).bind fun _ => pure _)

theorem checkSymbol (symbol : String) :
    Cuts x D N (Parser.checkSymbol symbol) (Parser.checkSymbol symbol) :=
  test (peekSymbol symbol) (pure _) ((note _ _).bind fun _ => pure _)

theorem eatWord (word : String) : Cuts x D N (Parser.eatWord word) (Parser.eatWord word) :=
  test (checkWord word) (advance.bind fun _ => pure _) (pure _)

theorem eatSymbol (symbol : String) : Cuts x D N (Parser.eatSymbol symbol) (Parser.eatSymbol symbol) :=
  test (checkSymbol symbol) (advance.bind fun _ => pure _) (pure _)

theorem expectWord (word : String) : Cuts x D N (Parser.expectWord word) (Parser.expectWord word) :=
  test (eatWord word) (pure _) unexpected

theorem expectSymbol (symbol : String) :
    Cuts x D N (Parser.expectSymbol symbol) (Parser.expectSymbol symbol) :=
  test (eatSymbol symbol) (pure _) unexpected

theorem onlyIf (b : Bool) {t u : Parser Bool} (ht : Cuts x D N t u) :
    Cuts x D N (Parser.onlyIf b t) (Parser.onlyIf b u) := by
  cases b with
  | true => exact ht
  | false => exact pure _

/-- A test that is made only where the dialect supports a construct. -/
theorem onlyIf_supports (y : Construct) {t u : Parser Bool} (ht : Cuts x D N t u) :
    Cuts x D N (Parser.supports y >>= fun b => Parser.onlyIf b t)
      (Parser.supports y >>= fun b => Parser.onlyIf b u) :=
  supports y fun b => onlyIf b ht

/-- What follows a parenthesis starts at a later token. -/
theorem behindSymbol {symbol : String} (hs : symbol ≠ ";") {f g : Unit → Parser β}
    (hf : Cuts x D N (f ()) (g ())) :
    Cuts x D (N + 1) (Parser.expectSymbol symbol >>= f) (Parser.expectSymbol symbol >>= g) :=
  fun n hn => .bindMirrors (.expectSymbol hs) (expectSymbol symbol n hn) fun m _ _ hm =>
    hf m (by omega)

theorem behindWord (word : String) {f g : Unit → Parser β} (hf : Cuts x D N (f ()) (g ())) :
    Cuts x D (N + 1) (Parser.expectWord word >>= f) (Parser.expectWord word >>= g) :=
  fun n hn => .bindMirrors (.expectWord word) (expectWord word n hn) fun m _ _ hm =>
    hf m (by omega)

/-! ### Several words -/

theorem missingWord_cons (word : String) (words : List String) (k : Nat) (i : Input) (c : Cursor) :
    Parser.missingWord k (word :: words) i c =
      if (i.token (c.index + k)).isWord word then Parser.missingWord (k + 1) words i c
      else (.ok (some (k, word)), c) := by
  simp only [Parser.missingWord, Bind.bind, Parser.peekNth, look]
  split <;> rfl

theorem missingWord_stays (words : List String) (k : Nat) (i : Input) (c : Cursor) :
    ∃ o, Parser.missingWord k words i c = (.ok o, c) := by
  induction words generalizing k with
  | nil => exact ⟨none, rfl⟩
  | cons word words ih =>
    rw [missingWord_cons]
    split
    · exact ih (k + 1)
    · exact ⟨_, rfl⟩

/-- The words that are missing are the same, or one is missing where the kept tokens end. If that is the last one,
none is missing on the whole; if it is not the first one, the last token that is kept is one of those before it. -/
theorem missingWord_cut (words : List String) (c : Cursor) (k : Nat) (hk : c.index + k ≤ x.size) :
    Parser.missingWord k words x.piece c = Parser.missingWord k words x.whole c ∨
      ∃ j word, Parser.missingWord k words x.piece c = (.ok (some (j, word)), c) ∧
        c.index + j = x.size ∧ j < k + words.length ∧
        (j + 1 = k + words.length → Parser.missingWord k words x.whole c = (.ok none, c)) ∧
        (k < j → ∃ w ∈ words.dropLast, (x.back 1).isWord w = true) := by
  induction words generalizing k with
  | nil => exact .inl rfl
  | cons word words ih =>
    rw [missingWord_cons, missingWord_cons]
    rcases Nat.lt_or_eq_of_le hk with hlt | heq
    · have hback : c.index + k + 1 = x.size → x.back 1 = x.whole.token (c.index + k) := fun hlast => by
        rw [← Cut.token_of_lt hlt, Cut.back, show x.size - 1 = c.index + k by omega]
      rw [Cut.token_of_lt hlt]
      split
      · next hword =>
        refine (ih (k + 1) hlt).imp_right ?_
        rintro ⟨j, w, hrun, hat, hlen, hnone, hlast⟩
        obtain ⟨v, vs, rfl⟩ := List.exists_cons_of_length_pos (l := words) (by omega)
        refine ⟨j, w, hrun, hat, by rw [List.length_cons]; omega, fun h => hnone (by
          rw [List.length_cons] at h; omega), fun _ => ?_⟩
        rcases Nat.eq_or_lt_of_le (show k + 1 ≤ j by omega) with rfl | hj
        · exact ⟨word, by simp, by rwa [hback (by omega)]⟩
        · obtain ⟨u, hu, hback⟩ := hlast hj
          exact ⟨u, by simp [hu], hback⟩
      · exact .inl rfl
    · have hno : (x.piece.token (c.index + k)).isWord word = false := by
        rw [Cut.token_of_le (Nat.le_of_eq heq.symm), x.isWord_finish]
      rw [hno]
      cases hword : (x.whole.token (c.index + k)).isWord word with
      | false => exact .inl rfl
      | true =>
        refine .inr ⟨k, word, rfl, heq, by simp, fun hlen => ?_, fun h => absurd h (Nat.lt_irrefl k)⟩
        obtain rfl : words = [] := List.eq_nil_of_length_eq_zero (by rw [List.length_cons] at hlen; omega)
        rfl

/-- What a test for several words does once it knows which one is missing. -/
def onMissing (words : List String) : Option (Nat × String) → Parser Bool
  | none => Parser.times words.length Parser.advance >>= fun _ => Pure.pure true
  | some (k, word) => Parser.expectNth k (Text.upper word) >>= fun _ => Pure.pure false

theorem onMissing_cuts (words : List String) (o : Option (Nat × String)) :
    Cuts x D N (onMissing words o) (onMissing words o) := by
  have htimes (k : Nat) : Cuts x D N (Parser.times k Parser.advance) (Parser.times k Parser.advance) := by
    induction k with
    | zero => exact pure _
    | succ k ih => exact advance.bind fun _ => ih.bind fun _ => pure _
  match o with
  | none => exact (htimes _).bind fun _ => pure _
  | some (k, word) => exact (note _ _).bind fun _ => pure _

/-- The words `words` are cut off from each other: on the kept tokens the test for them fails at `e`. -/
structure WordsParted (x : Cut) (words : List String) (c e : Cursor) : Prop where
  run : Parser.eatWords words x.piece c = (.ok false, e)
  index : e.index = c.index
  short : x.size < e.index + words.length
  asked : x.size ≤ e.furthest
  /-- If only the last one is missing, the whole has all of them. -/
  whole : x.size + 1 = e.index + words.length →
    Parser.eatWords words x.whole c = onMissing words none x.whole c
  last : e.index < x.size → ∃ w ∈ words.dropLast, (x.back 1).isWord w = true

theorem eatWords_missing {words : List String} {i : Input} {c : Cursor} {o : Option (Nat × String)}
    (h : Parser.missingWord 0 words i c = (.ok o, c)) : Parser.eatWords words i c = onMissing words o i c :=
  Parser.bind_ok h

/-- A test for several words goes on as on the whole, or the cut parts the words. -/
theorem eatWords_run (words : List String) {c : Cursor} (hc : c.index ≤ x.size) :
    (∃ o, Parser.eatWords words x.whole c = onMissing words o x.whole c ∧
      Parser.eatWords words x.piece c = onMissing words o x.piece c) ∨ ∃ e, WordsParted x words c e := by
  obtain ⟨o, ho⟩ := missingWord_stays words 0 x.whole c
  rcases missingWord_cut words c 0 (Nat.add_zero c.index ▸ hc) with
    hsame | ⟨j, word, hj, hat, hlen, hnone, hlast⟩
  · exact .inl ⟨o, eatWords_missing ho, eatWords_missing (hsame.trans ho)⟩
  · have hindex := c.note_index (c.index + j) (Text.upper word)
    have hfurthest := c.furthest_note (c.index + j) (Text.upper word)
    exact .inr ⟨c.note (c.index + j) (Text.upper word), eatWords_missing hj, hindex, by omega, by omega,
      fun h => eatWords_missing (hnone (by omega)), fun h => hlast (by omega)⟩

/-- What follows a test for several words: where the kept tokens end, the words are not there; otherwise, the test
goes on as on the whole or the cut parts the words. -/
theorem wordsThen {words : List String} {f g : Bool → Parser β} (hf : ∀ b, Cuts x D N (f b) (g b))
    (hparted : ∀ c e, c.depth = D → c.index < x.size → x.size < c.index + N → WordsParted x words c e →
      (∀ r d, (Parser.eatWords words >>= f) x.whole c ≠ (.ok r, d)) ∨ x.Ends e (g false x.piece e)) :
    Cuts x D N (Parser.eatWords words >>= f) (Parser.eatWords words >>= g) := by
  intro n hn c hc hd
  have hstep (o : Option (Nat × String)) := ((onMissing_cuts words o).bind hf) n hn c hc hd
  refine ⟨fun hlate => ?_, fun hearly r d hrun => ?_⟩
  · obtain ⟨o, ho⟩ := missingWord_stays words 0 x.piece c
    have hpiece : (Parser.eatWords words >>= g) x.piece c = (onMissing words o >>= g) x.piece c := by
      simp only [Bind.bind, eatWords_missing ho]
    rw [hpiece]
    exact (hstep o).1 hlate
  · rcases eatWords_run words (x := x) (c := c) (by omega) with ⟨o, hwhole, hpiece⟩ | ⟨e, h⟩
    · have hwhole' : (Parser.eatWords words >>= f) x.whole c = (onMissing words o >>= f) x.whole c := by
        simp only [Bind.bind, hwhole]
      have hpiece' : (Parser.eatWords words >>= g) x.piece c = (onMissing words o >>= g) x.piece c := by
        simp only [Bind.bind, hpiece]
      rw [hpiece']
      exact (hstep o).2 hearly r d (hwhole' ▸ hrun)
    · have hlt : c.index < x.size := by
        by_contra hge
        exact hearly (.inl (by omega))
      refine .inr ?_
      rw [Parser.bind_ok h.run]
      exact (((hparted c e hd hlt (by omega) h).resolve_left fun hno => hno r d hrun).weaken
        (Nat.le_of_eq h.index.symm))

/-- Two words that are cut off from each other, of which the first starts a phrase. -/
theorem WordsParted.waits {a b : String} (ha : Text.upper a ∈ phraseWords) {c e : Cursor}
    (h : WordsParted x [a, b] c e) (hc : c.index < x.size) : x.Waits e := by
  have hindex := h.index
  obtain ⟨w, hw, hback⟩ := h.last (by omega)
  obtain rfl : w = a := by simpa using hw
  have hshort := h.short
  simp only [List.length_cons, List.length_nil] at hshort
  exact Cut.waits_of_isWord ha hback (by omega) h.asked

/-- Two words, with a level left: if the second is missing, the first is the last token. -/
theorem eatWords {a b : String} (ha : Text.upper a ∈ phraseWords) (hD : D < maxDepth) :
    Cuts x D N (Parser.eatWords [a, b]) (Parser.eatWords [a, b]) := by
  have hthen : Cuts x D N (Parser.eatWords [a, b] >>= fun b => Pure.pure b)
      (Parser.eatWords [a, b] >>= fun b => Pure.pure b) := by
    refine wordsThen (fun b => pure b) fun c e hd hc _ h => .inr (.pure (.inr (.inr ⟨h.waits ha hc, ?_⟩)))
    rwa [Parser.depth_of_run h.run, hd]
  intro n hn
  refine .of_run (fun c => ?_) (fun c => ?_) (hthen n hn)
  all_goals
    simp only [Bind.bind]
    split <;> assumption

/-- A list behind two words. If the second is missing, a level is left, since the list needs one on the whole. -/
theorem optionalWords {a b : String} (ha : Text.upper a ∈ phraseWords) {p q : Parser (List α)}
    (hroom : ∀ c r e, p x.whole c = (.ok r, e) → c.depth < maxDepth) (hp : Cuts x D N p q) :
    Cuts x D N (Parser.optionalList (Parser.eatWords [a, b]) p)
      (Parser.optionalList (Parser.eatWords [a, b]) q) := by
  refine wordsThen (fun b => ?_) fun c e hd hc _ h => ?_
  · cases b with
    | true => exact hp
    | false => exact pure _
  rcases Nat.lt_or_ge D maxDepth with hD | hD
  · refine .inr (.pure (.inr (.inr ⟨h.waits ha hc, ?_⟩)))
    rwa [Parser.depth_of_run h.run, hd]
  · refine .inl fun r d hrun => ?_
    have hlast := (h.waits ha hc).last
    obtain ⟨b, e', hwords, hrest⟩ := Parser.of_bind_ok hrun
    have hdepth := (Parser.depth_of_run hwords).trans hd
    rw [h.whole (by simp only [List.length_cons, List.length_nil]; omega)] at hwords
    obtain ⟨_, k, -, hpure⟩ := Parser.of_bind_ok hwords
    obtain ⟨rfl, rfl⟩ : true = b ∧ k = e' := by simpa [Pure.pure, look] using hpure
    exact absurd (hroom k r d hrest) (by omega)

/-! ### Optional parts and repetition -/

theorem optional {t u : Parser Bool} (ht : Cuts x D N t u) (hp : Cuts x D N p q) :
    Cuts x D N (Parser.optional t p) (Parser.optional u q) :=
  test ht (hp.bind fun _ => pure _) (pure _)

theorem optionalList {t u : Parser Bool} {p q : Parser (List α)} (ht : Cuts x D N t u)
    (hp : Cuts x D N p q) : Cuts x D N (Parser.optionalList t p) (Parser.optionalList u q) :=
  test ht hp (pure _)

/-- Enough steps are enough on both sides. -/
theorem manyUpTo {p q : Parser (Option α)} (hq : x.Moves q) (hp : Cuts x D N p q) (n k j : Nat)
    (hn : n < N) (hk : n < k) (hj : n < j) :
    CutsAt x D n (Parser.manyUpTo p k) (Parser.manyUpTo q j) := by
  induction k generalizing n j with
  | zero => cases hk
  | succ k ih =>
    obtain ⟨j, rfl⟩ : ∃ i, j = i + 1 := ⟨j - 1, by omega⟩
    refine .bindOf (hq n) (hp n hn) fun m hm o ho => ?_
    cases o with
    | none => exact .pure _
    | some a =>
      have hlt : m < n := ho rfl
      exact (ih m j (by omega) (by omega) (by omega)).bind fun _ _ _ => .pure _

theorem many {p q : Parser (Option α)} (hq : x.Moves q) (hp : Cuts x D N p q) :
    Cuts x D N (Parser.many p) (Parser.many q) := by
  intro n hn c hc
  have hsize := x.piece_size
  have hinside := x.inside
  exact manyUpTo hq hp n (x.whole.tokens.size - c.index + 1) (x.piece.tokens.size - c.index + 1) hn
    (by omega) (by omega) c hc

theorem iterateUpTo {f g : σ → Parser (Option σ)} (hg : ∀ s, x.Moves (g s))
    (hf : ∀ s, Cuts x D N (f s) (g s)) (s : σ) (n k j : Nat) (hn : n < N) (hk : n < k) (hj : n < j) :
    CutsAt x D n (Parser.iterateUpTo f s k) (Parser.iterateUpTo g s j) := by
  induction k generalizing n j s with
  | zero => cases hk
  | succ k ih =>
    obtain ⟨j, rfl⟩ : ∃ i, j = i + 1 := ⟨j - 1, by omega⟩
    refine .bindOf (hg s n) (hf s n hn) fun m hm o ho => ?_
    cases o with
    | none => exact .pure _
    | some s' =>
      have hlt : m < n := ho rfl
      exact ih s' m j (by omega) (by omega) (by omega)

theorem iterate {f g : σ → Parser (Option σ)} (hg : ∀ s, x.Moves (g s))
    (hf : ∀ s, Cuts x D N (f s) (g s)) (s : σ) :
    Cuts x D N (Parser.iterate f s) (Parser.iterate g s) := by
  intro n hn c hc
  have hsize := x.piece_size
  have hinside := x.inside
  exact iterateUpTo hg hf s n (x.whole.tokens.size - c.index + 1) (x.piece.tokens.size - c.index + 1)
    hn (by omega) (by omega) c hc

theorem afterCommas (hq : ∀ n, Mirrors x.self n q q Any) (hp : Cuts x D N p q) :
    Cuts x D N (Parser.afterCommas p) (Parser.afterCommas q) :=
  many (.of_mirrors fun _ => .optional (.eatSymbol (by decide)) fun m _ => hq m)
    (optional (eatSymbol _) hp)

theorem commaSeparated (hq : ∀ n, Mirrors x.self n q q Any) (hp : Cuts x D N p q) :
    Cuts x D N (Parser.commaSeparated p) (Parser.commaSeparated q) :=
  hp.bind fun _ => (afterCommas hq hp).bind fun _ => pure _

theorem parenthesized (hp : Cuts x D N p q) :
    Cuts x D (N + 1) (Parser.parenthesized p) (Parser.parenthesized q) :=
  behindSymbol (by decide) (hp.bind fun _ => (expectSymbol _).bind fun _ => pure _)

theorem parens (hp : Cuts x D N p q) :
    Cuts x D N (Parser.parenthesized p) (Parser.parenthesized q) :=
  (parenthesized hp).mono (Nat.le_succ N)

/-! ### Names -/

theorem name : Cuts x D N Parser.name Parser.name := by
  refine peek fun t => ?_
  split
  · exact advance.bind fun _ => pure _
  · exact (note _ _).bind fun _ => unexpected

theorem dottedPart : Cuts x D N Parser.dottedPart Parser.dottedPart :=
  test (peekSymbol _) (advance.bind fun _ => name.bind fun _ => pure _) (pure _)

theorem qualifiedName : Cuts x D N Parser.qualifiedName Parser.qualifiedName :=
  name.bind fun _ => (many (.of_mirrors fun _ => .dottedPart) dottedPart).bind fun _ => pure _

theorem nameList : Cuts x D N Parser.nameList Parser.nameList :=
  parens (commaSeparated (fun _ => .any .name) name)

theorem optionalNameList : Cuts x D N Parser.optionalNameList Parser.optionalNameList :=
  optionalList (peekSymbol _) nameList

end Cuts

end SqlDialects
