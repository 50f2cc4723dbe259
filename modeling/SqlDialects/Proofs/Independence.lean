import Mathlib.Data.List.Forall2
import SqlDialects.Dialect.Builtin
import SqlDialects.Proofs.Mirroring

/-!
# Statements are read independently

* `pieces` : the tokens between semicolons;
* `readAll` : the statements of a list of tokens;
* `readAll_iff` : they are the statements of the pieces, each read alone;
* `statements_independent` : the same, with what it means for success.
-/

namespace SqlDialects

open SqlDialects.Parser

/-! ## Pieces -/

/-- The tokens between semicolons, without empty pieces. -/
def pieces (tokens : List Token) : List (List Token) :=
  (tokens.splitOnP fun t => t.isSymbol ";").filter fun piece => !piece.isEmpty

@[simp] theorem pieces_nil : pieces [] = [] := rfl

theorem pieces_semicolon {t : Token} (ht : t.isSymbol ";" = true) (ts : List Token) :
    pieces (t :: ts) = pieces ts := by
  simp [pieces, List.splitOnP_cons_eq_if_modifyHead, ht]

theorem pieces_append {seg : List Token} (hne : seg ≠ [])
    (hseg : ∀ t ∈ seg, t.isSymbol ";" = false) {tail : List Token}
    (htail : ∀ t ∈ tail.head?, t.isSymbol ";" = true) :
    pieces (seg ++ tail) = seg :: pieces tail := by
  cases tail with
  | nil => simp [pieces, List.splitOnP_eq_singleton hseg, hne]
  | cons t ts =>
    have ht := htail t rfl
    rw [pieces_semicolon ht, pieces, List.splitOnP_append_cons_of_forall_mem hseg t ht]
    simp [pieces, hne]

/-- The first piece of tokens that start with none of the semicolons. -/
theorem exists_first_piece {t : Token} (ht : t.isSymbol ";" = false) (ts : List Token) :
    ∃ seg tail, t :: ts = seg ++ tail ∧ seg ≠ [] ∧ (∀ u ∈ seg, u.isSymbol ";" = false) ∧
      ∀ u ∈ tail.head?, u.isSymbol ";" = true := by
  let inside (u : Token) : Bool := !u.isSymbol ";"
  refine ⟨(t :: ts).takeWhile inside, (t :: ts).dropWhile inside, ?_, ?_, fun u hu => ?_, fun u hu => ?_⟩
  · exact List.takeWhile_append_dropWhile.symm
  · simp [inside, ht]
  · have hall := List.all_takeWhile (l := t :: ts) (p := inside)
    simpa [inside] using List.all_eq_true.mp hall u hu
  · have hhead := List.head?_dropWhile_not inside (t :: ts)
    rw [Option.mem_def.mp hu] at hhead
    simpa [inside] using hhead

/-- A piece has no pieces but itself. -/
theorem pieces_of_mem {tokens piece : List Token} (h : piece ∈ pieces tokens) :
    pieces piece = [piece] := by
  induction hlength : tokens.length using Nat.strongRecOn generalizing tokens with
  | ind n ih =>
    cases tokens with
    | nil => simp at h
    | cons t ts =>
      cases ht : t.isSymbol ";" with
      | true =>
        rw [pieces_semicolon ht] at h
        exact ih ts.length (by simp [← hlength]) h rfl
      | false =>
        obtain ⟨seg, tail, hrest, hne, hseg, htail⟩ := exists_first_piece ht ts
        rw [hrest, pieces_append hne hseg htail, List.mem_cons] at h
        rcases h with rfl | h
        · simpa using @pieces_append piece hne hseg [] (by simp)
        · have hpos : 0 < seg.length := List.length_pos_iff.mpr hne
          refine ih tail.length ?_ h rfl
          rw [← hlength, hrest, List.length_append]
          omega

/-! ## One statement -/

/-- The statements of a list of tokens. -/
def readAll (d : Dialect) (tokens : List Token) : Except Fault (List Statement) :=
  statements.runFrom (.ofOpenTokens d tokens)

theorem statements_runFrom (i : Input) :
    statements.runFrom i = (manyUpTo nextStatement (i.tokens.size + 1) i {}).1 := rfl

/-- The statement `s` if a semicolon or the end of the text follows. -/
def closing (s : Statement) : Parser (Option Statement) := do
  unless ← atEnd do
    unless ← checkSymbol ";" do unexpected
  return some s

/-- A statement that ends at a semicolon or with the text. -/
def closedStatement : Parser (Option Statement) := statement >>= closing

/-- The next statement where no semicolon stands before it. -/
def startedStatement : Parser (Option Statement) := do
  if ← atEnd then return none
  resetBinds
  closedStatement

theorem nextStatement_eq : nextStatement = many semicolon >>= fun _ => startedStatement := rfl

section Steps

variable {i : Input} {c : Cursor}

theorem Parser.bind_ok {α β : Type} {p : Parser α} {f : α → Parser β} {a : α} {e : Cursor}
    (h : p i c = (.ok a, e)) : (p >>= f) i c = f a i e := by
  simp only [Bind.bind, h]

theorem Parser.bind_error {α β : Type} {p : Parser α} {f : α → Parser β} {y : Fault} {e : Cursor}
    (h : p i c = (.error y, e)) : (p >>= f) i c = (.error y, e) := by
  simp only [Bind.bind, h]

theorem Parser.of_bind_ok {α β : Type} {p : Parser α} {f : α → Parser β} {b : β} {c' : Cursor}
    (h : (p >>= f) i c = (.ok b, c')) : ∃ a e, p i c = (.ok a, e) ∧ f a i e = (.ok b, c') := by
  simp only [Bind.bind] at h
  split at h
  case h_1 a e hp => exact ⟨a, e, hp, h⟩
  case h_2 => cases h

/-- Two runs with the same outcome start at the same depth. -/
theorem Parser.depth_of_same {α : Type} {p q : Parser α} {e : Cursor} (h : p i c = q i e) : e.depth = c.depth := by
  cases hrun : q i e with
  | mk r d => exact (Parser.depth_of_run hrun).symm.trans (Parser.depth_of_run (h.trans hrun))

theorem semicolon_yes (ht : (i.token c.index).isSymbol ";" = true) (hc : c.index < i.tokens.size) :
    semicolon i c = (.ok (some ()), { c with index := c.index + 1 }) := by
  simp [semicolon, eatSymbol, checkSymbol, peekSymbol, peek, peekNth, look, advance, Bind.bind, Pure.pure,
    ht, hc]

theorem Cursor.note_index (c : Cursor) (k : Nat) (what : String) : (c.note k what).index = c.index := by
  unfold Cursor.note
  split
  · rfl
  · split <;> rfl

theorem Cursor.note_furthest (c : Cursor) (k : Nat) (what : String) :
    (c.note k what).furthest = max c.furthest k := by
  unfold Cursor.note
  split
  · simp only
    omega
  · split
    · simp only
      omega
    · omega

/-- The cursor stands where it stood, and no token behind it has been asked about since. -/
def Cursor.Waits (c e : Cursor) : Prop := e.index = c.index ∧ e.furthest = max c.furthest c.index

theorem checkSymbol_no {symbol : String} (ht : (i.token c.index).isSymbol symbol = false) :
    ∃ e, checkSymbol symbol i c = (.ok false, e) ∧ c.Waits e := by
  refine ⟨c.note c.index s!"'{symbol}'", ?_, Cursor.note_index .., Cursor.note_furthest ..⟩
  simp [checkSymbol, peekSymbol, peek, peekNth, look, expectHere, expectNth, ht, Bind.bind, Pure.pure]

theorem semicolon_no (ht : (i.token c.index).isSymbol ";" = false) :
    ∃ e, semicolon i c = (.ok none, e) ∧ c.Waits e := by
  obtain ⟨e, hcheck, he⟩ := checkSymbol_no ht
  refine ⟨e, ?_, he⟩
  simp [semicolon, eatSymbol, look, hcheck, Bind.bind, Pure.pure]

/-- A semicolon before a statement is skipped. -/
theorem nextStatement_skip (ht : (i.token c.index).isSymbol ";" = true)
    (hc : c.index < i.tokens.size) :
    nextStatement i c = nextStatement i { c with index := c.index + 1 } := by
  have hcount : i.tokens.size - c.index = i.tokens.size - (c.index + 1) + 1 := by omega
  have hmany : many semicolon i c = (manyUpTo semicolon (i.tokens.size - c.index) >>= fun us =>
      Pure.pure (() :: us)) i { c with index := c.index + 1 } :=
    Parser.bind_ok (semicolon_yes ht hc)
  have hmany' : many semicolon i { c with index := c.index + 1 } =
      manyUpTo semicolon (i.tokens.size - c.index) i { c with index := c.index + 1 } := by
    rw [hcount]
    rfl
  rw [nextStatement_eq]
  cases hrun : manyUpTo semicolon (i.tokens.size - c.index) i { c with index := c.index + 1 } with
  | mk r e =>
    rw [hrun] at hmany'
    cases r with
    | ok us =>
      rw [Parser.bind_ok hrun] at hmany
      rw [Parser.bind_ok hmany', Parser.bind_ok hmany]
    | error y =>
      rw [Parser.bind_error hrun] at hmany
      rw [Parser.bind_error hmany', Parser.bind_error hmany]

/-- Without a semicolon before it, a statement is read where the cursor stands. -/
theorem nextStatement_here (ht : (i.token c.index).isSymbol ";" = false) :
    ∃ e, c.Waits e ∧ nextStatement i c = startedStatement i e := by
  obtain ⟨e, he, hwaits⟩ := semicolon_no ht
  have hmany : many semicolon i c = (.ok [], e) := Parser.bind_ok he
  exact ⟨e, hwaits, by rw [nextStatement_eq, Parser.bind_ok hmany]⟩

theorem nextStatement_end (hfinish : i.finish.isSymbol ";" = false) (hc : i.tokens.size ≤ c.index) :
    ∃ e, nextStatement i c = (.ok none, e) := by
  have ht : (i.token c.index).isSymbol ";" = false := by
    simpa [Input.token, Array.getElem?_eq_none hc] using hfinish
  obtain ⟨e, hwaits, hnext⟩ := nextStatement_here ht
  refine ⟨e, ?_⟩
  have hend : atEnd i e = (.ok true, e) := by simp [atEnd, look, hwaits.1, hc]
  rw [hnext, startedStatement, Parser.bind_ok hend]
  rfl

theorem nextStatement_start (ht : (i.token c.index).isSymbol ";" = false)
    (hc : c.index < i.tokens.size) :
    ∃ e, c.Waits e ∧ e.binds = 0 ∧ nextStatement i c = closedStatement i e := by
  obtain ⟨e, hwaits, hnext⟩ := nextStatement_here ht
  refine ⟨{ e with binds := 0 }, hwaits, rfl, ?_⟩
  have hend : atEnd i e = (.ok false, e) := by simp [atEnd, look, hwaits.1, hc]
  rw [hnext, startedStatement, Parser.bind_ok hend]
  rfl

theorem closing_yes (s : Statement) (h : i.tokens.size ≤ c.index ∨
    (i.token c.index).isSymbol ";" = true) : closing s i c = (.ok (some s), c) := by
  by_cases hend : i.tokens.size ≤ c.index
  · simp [closing, atEnd, look, hend, Bind.bind, Pure.pure]
  · have ht := h.resolve_left hend
    simp [closing, atEnd, look, hend, checkSymbol, peekSymbol, peek, peekNth, ht, Bind.bind, Pure.pure]

theorem closing_no (s : Statement) (hc : c.index < i.tokens.size)
    (ht : (i.token c.index).isSymbol ";" = false) : ∃ f e, closing s i c = (.error f, e) := by
  have hend : atEnd i c = (.ok false, c) := by simp [atEnd, look, hc]
  obtain ⟨e, hcheck, -⟩ := checkSymbol_no ht
  have hfail {α : Type} {f : Unit → Parser α} : Fails (unexpected >>= f) := .before .unexpected
  rw [closing, Parser.bind_ok hend]
  obtain ⟨f, e', hrun⟩ := hfail i e
  exact ⟨f, e', (Parser.bind_ok hcheck).trans hrun⟩

end Steps

/-- The statement of a part is closed in the whole list exactly if it takes the whole part. -/
theorem closedStatement_mirrors {x : Excerpt} {n : Nat}
    (hin : ∀ k < x.piece.tokens.size, (x.piece.token k).isSymbol ";" = false)
    (hbehind : x.whole.tokens.size ≤ x.offset + x.piece.tokens.size ∨
      (x.whole.token (x.offset + x.piece.tokens.size)).isSymbol ";" = true) :
    Mirrors x n closedStatement closedStatement fun m o => m = 0 ∧ o.isSome = true := by
  refine statement_mirrors.andThen fun m s => ?_
  intro c c' hat
  have hrest := hat.rest
  have hindex := hat.index
  have hroom := x.room
  cases m with
  | zero =>
    refine .inl ⟨some s, 0, c, c', closing_yes s ?_, closing_yes s (.inl (by omega)), Nat.le_refl 0, hat,
      rfl, rfl⟩
    rwa [show c.index = x.offset + x.piece.tokens.size by omega]
  | succ m =>
    have ht := hin c'.index (by omega)
    have ht' : (x.whole.token c.index).isSymbol ";" = false := by
      rw [hindex, x.inside _ (by omega)]
      exact ht
    obtain ⟨f, e, hfail⟩ := closing_no s (by omega) ht'
    obtain ⟨f', e', hfail'⟩ := closing_no s (by omega) ht
    exact .inr ⟨f, f', e, e', hfail, hfail'⟩

/-! ## All statements -/

section Runs

variable {d : Dialect} {finish : Token}

theorem token_append {front rest : List Token} {k : Nat} :
    (Input.ofTokens d (front ++ rest) finish).token (front.length + k) = rest[k]?.getD finish := by
  simp [Input.token, Input.ofTokens, List.getElem?_append_right]

/-- The list `seg` as a part of a longer one, up to a semicolon or the end. -/
def excerptOf (d : Dialect) (hd : d.reading.operator? ";" = none) {finish : Token}
    (hfinish : finish.isStop = true) (front seg : List Token) {tail : List Token}
    (htail : ∀ t ∈ tail.head?, t.isSymbol ";" = true) : Excerpt where
  whole := .ofTokens d (front ++ (seg ++ tail)) finish
  piece := .ofOpenTokens d seg
  offset := front.length
  dialect := rfl
  semicolon := hd
  room := by simp [Input.ofTokens, Input.ofOpenTokens]
  inside := by
    intro k hk
    have hk : k < seg.length := by simpa [Input.ofOpenTokens] using hk
    rw [token_append]
    simp [Input.token, Input.ofOpenTokens, List.getElem?_append_left hk, hk]
  behind := by
    have hsize : (Input.ofOpenTokens d seg).tokens.size = seg.length := by simp [Input.ofOpenTokens]
    rw [hsize, token_append]
    cases tail with
    | nil => simpa using hfinish
    | cons t ts => simpa [Token.isStop] using Or.inr (htail t rfl)
  finish := by simp [Input.ofOpenTokens, Token.isStop]

theorem size_ofOpenTokens (d : Dialect) (seg : List Token) :
    (Input.ofOpenTokens d seg).tokens.size = seg.length := by
  simp [Input.ofOpenTokens]

theorem excerptOf_behind {hd : d.reading.operator? ";" = none} {hfinish : finish.isStop = true}
    {front seg tail : List Token} (htail : ∀ t ∈ tail.head?, t.isSymbol ";" = true) :
    let x := excerptOf d hd hfinish front seg htail
    x.whole.tokens.size ≤ x.offset + x.piece.tokens.size ∨
      (x.whole.token (x.offset + x.piece.tokens.size)).isSymbol ";" = true := by
  intro x
  have hsize : x.piece.tokens.size = seg.length := size_ofOpenTokens d seg
  rw [hsize]
  cases tail with
  | nil => exact .inl (by simp [x, excerptOf, Input.ofTokens])
  | cons t ts =>
    refine .inr ?_
    have htoken : x.whole.token (x.offset + seg.length) = t := by
      exact token_append.trans (by simp)
    rw [htoken]
    exact htail t rfl

section Steps

variable {i : Input} {c e : Cursor} {fuel : Nat}

theorem manyUpTo_none (h : nextStatement i c = (.ok none, e)) :
    manyUpTo nextStatement (fuel + 1) i c = (.ok [], e) :=
  Parser.bind_ok h

theorem manyUpTo_error {y : Fault} (h : nextStatement i c = (.error y, e)) :
    manyUpTo nextStatement (fuel + 1) i c = (.error y, e) :=
  Parser.bind_error h

/-- The first statement and those behind it. -/
theorem manyUpTo_some {s : Statement} {ss : List Statement}
    (h : nextStatement i c = (.ok (some s), e)) :
    (manyUpTo nextStatement (fuel + 1) i c).1 = .ok ss ↔
      ∃ ss', ss = s :: ss' ∧ (manyUpTo nextStatement fuel i e).1 = .ok ss' := by
  have hrun : manyUpTo nextStatement (fuel + 1) i c = (manyUpTo nextStatement fuel >>= fun ss' =>
      Pure.pure (s :: ss')) i e := Parser.bind_ok h
  rw [hrun]
  cases hrest : manyUpTo nextStatement fuel i e with
  | mk r e' =>
    cases r with
    | ok ss' =>
      rw [Parser.bind_ok hrest]
      simp [Pure.pure, look, eq_comm]
    | error y =>
      rw [Parser.bind_error hrest]
      simp

end Steps

/-- A statement that takes all tokens is the only one. -/
theorem readAll_of_some {seg : List Token} (hne : seg ≠ []) {s : Statement} {e : Cursor}
    (h : nextStatement (.ofOpenTokens d seg) {} = (.ok (some s), e)) (he : seg.length ≤ e.index) :
    readAll d seg = .ok [s] := by
  obtain ⟨t, ts, rfl⟩ := List.exists_cons_of_ne_nil hne
  obtain ⟨e', hend⟩ := @nextStatement_end (.ofOpenTokens d (t :: ts)) e rfl
    (by rwa [size_ofOpenTokens])
  have hsome := @manyUpTo_some _ _ _ (t :: ts).length s [s] h
  refine hsome.mpr ⟨[], rfl, ?_⟩
  rw [List.length_cons, manyUpTo_none hend]

theorem readAll_of_error {seg : List Token} {y : Fault} {e : Cursor}
    (h : nextStatement (.ofOpenTokens d seg) {} = (.error y, e)) : readAll d seg = .error y :=
  congrArg Prod.fst (manyUpTo_error h)

/-- The next statement of a list is the one of its first piece, which it takes as a whole. -/
theorem nextStatement_piece (hd : d.reading.operator? ";" = none) (hfinish : finish.kind = .finish)
    {front seg tail : List Token} {c : Cursor} (hc : c.index = front.length) (hdepth : c.depth = 0) (hne : seg ≠ [])
    (hseg : ∀ t ∈ seg, t.isSymbol ";" = false) (htail : ∀ t ∈ tail.head?, t.isSymbol ";" = true) :
    (∃ s e, nextStatement (.ofTokens d (front ++ (seg ++ tail)) finish) c = (.ok (some s), e) ∧
        e.index = (front ++ seg).length ∧ readAll d seg = .ok [s]) ∨
      ∃ y y' e, nextStatement (.ofTokens d (front ++ (seg ++ tail)) finish) c = (.error y, e) ∧
        readAll d seg = .error y' := by
  have hstop : finish.isStop = true := by simp [Token.isStop, hfinish]
  have hpos : 0 < seg.length := List.length_pos_iff.mpr hne
  have hpiece (k : Nat) (hk : k < seg.length) :
      ((Input.ofOpenTokens d seg).token k).isSymbol ";" = false := by
    have hmem : seg[k] ∈ seg := List.getElem_mem hk
    simpa [Input.token, Input.ofOpenTokens, hk] using hseg _ hmem
  obtain ⟨e₁, ⟨hindex₁, -⟩, hbinds₁, hrun₁⟩ :=
    @nextStatement_start (.ofTokens d (front ++ (seg ++ tail)) finish) c
      (by rw [hc, ← Nat.add_zero front.length, token_append,
            List.getElem?_append_left hpos, List.getElem?_eq_getElem hpos]
          exact hseg _ (List.getElem_mem hpos))
      (by simp [Input.ofTokens, hc]; omega)
  obtain ⟨e₂, ⟨hindex₂, -⟩, hbinds₂, hrun₂⟩ :=
    @nextStatement_start (.ofOpenTokens d seg) {} (hpiece 0 hpos) (by rwa [size_ofOpenTokens])
  have hat : (excerptOf d hd hstop front seg htail).At seg.length e₁ e₂ := by
    refine ⟨?_, ?_, by rw [hbinds₁, hbinds₂], ?_⟩
    · rw [hindex₂]
      simp [excerptOf, size_ofOpenTokens]
    · rw [hindex₁, hindex₂, hc]
      rfl
    · rw [Parser.depth_of_same hrun₁, Parser.depth_of_same hrun₂, hdepth]
  have hclosed := closedStatement_mirrors (x := excerptOf d hd hstop front seg htail) (n := seg.length)
    (fun k hk => hpiece k (by simpa [excerptOf, size_ofOpenTokens] using hk)) (excerptOf_behind htail)
  rcases hclosed e₁ e₂ hat with ⟨o, m, f₁, f₂, h₁, h₂, -, hat', hm, ho⟩ | ⟨y, y', f₁, f₂, h₁, h₂⟩
  · subst hm
    obtain ⟨s, rfl⟩ := Option.isSome_iff_exists.mp ho
    have hrest : f₂.index = seg.length := by simpa [excerptOf, size_ofOpenTokens] using hat'.rest
    refine .inl ⟨s, f₁, hrun₁.trans h₁, ?_, readAll_of_some hne (hrun₂.trans h₂) (Nat.le_of_eq hrest.symm)⟩
    rw [hat'.index, hrest, List.length_append]
    rfl
  · exact .inr ⟨y, y', f₁, hrun₁.trans h₁, readAll_of_error (hrun₂.trans h₂)⟩

/-- The statements from a place on are those of the pieces from there on. -/
theorem manyUpTo_iff (hd : d.reading.operator? ";" = none) (hfinish : finish.kind = .finish)
    (front rest : List Token) (c : Cursor) (hc : c.index = front.length) (hdepth : c.depth = 0) (fuel : Nat)
    (hfuel : rest.length < fuel) (ss : List Statement) :
    (manyUpTo nextStatement fuel (.ofTokens d (front ++ rest) finish) c).1 = .ok ss ↔
      List.Forall₂ (fun piece s => readAll d piece = .ok [s]) (pieces rest) ss := by
  obtain ⟨fuel, rfl⟩ : ∃ k, fuel = k + 1 := ⟨fuel - 1, by omega⟩
  induction hlength : rest.length using Nat.strongRecOn generalizing front rest c fuel ss with
  | ind n ih =>
    cases rest with
    | nil =>
      obtain ⟨e, hend⟩ := @nextStatement_end (.ofTokens d (front ++ []) finish) c
        (by simp [Input.ofTokens, Token.isSymbol, hfinish]) (by simp [Input.ofTokens, hc])
      rw [manyUpTo_none hend]
      simp [eq_comm]
    | cons t ts =>
      cases ht : t.isSymbol ";" with
      | true =>
        -- the statements behind the semicolon
        have hnext : nextStatement (.ofTokens d (front ++ t :: ts) finish) c =
            nextStatement (.ofTokens d (front ++ t :: ts) finish) { c with index := c.index + 1 } := by
          refine nextStatement_skip ?_ (by simp [Input.ofTokens, hc])
          rw [hc, ← Nat.add_zero front.length, token_append]
          simpa using ht
        have hskip := ih ts.length (by simp [← hlength]) (front ++ [t]) ts { c with index := c.index + 1 }
          (by simp [hc]) hdepth ss fuel (by simp at hfuel; omega) rfl
        rw [List.append_assoc, List.singleton_append] at hskip
        rw [pieces_semicolon ht, ← hskip]
        simp only [manyUpTo, Bind.bind, hnext]
      | false =>
        -- the first piece, and the statements behind it
        obtain ⟨seg, tail, hrest, hne, hseg, htail⟩ := exists_first_piece ht ts
        have hpos : 0 < seg.length := List.length_pos_iff.mpr hne
        have hsum : n = seg.length + tail.length := by rw [← hlength, hrest, List.length_append]
        rw [hrest] at hfuel ⊢
        rw [List.length_append] at hfuel
        rw [pieces_append hne hseg htail, List.forall₂_cons_left_iff]
        rcases nextStatement_piece hd hfinish hc hdepth hne hseg htail with
          ⟨s, e, hnext, he, hread⟩ | ⟨y, y', e, hnext, hread⟩
        · obtain ⟨k, rfl⟩ : ∃ k, fuel = k + 1 := ⟨fuel - 1, by omega⟩
          have htail := ih tail.length (by omega) (front ++ seg) tail e he
            ((Parser.depth_of_run hnext).trans hdepth)
          rw [List.append_assoc] at htail
          rw [manyUpTo_some hnext]
          constructor
          · rintro ⟨ss', rfl, hrun⟩
            exact ⟨s, ss', hread, (htail ss' k (by omega) rfl).mp hrun, rfl⟩
          · rintro ⟨s', ss', hread', hall, rfl⟩
            obtain rfl : s = s' := by simpa [hread] using hread'
            exact ⟨ss', rfl, (htail ss' k (by omega) rfl).mpr hall⟩
        · rw [manyUpTo_error hnext]
          simp [hread]

end Runs

/-- The statements of a list of tokens are those of its pieces, each read alone. -/
theorem readAll_iff {d : Dialect} (hd : d.reading.operator? ";" = none) (tokens : List Token)
    (ss : List Statement) :
    readAll d tokens = .ok ss ↔
      List.Forall₂ (fun piece s => readAll d piece = .ok [s]) (pieces tokens) ss := by
  rw [readAll, statements_runFrom]
  exact manyUpTo_iff hd rfl [] tokens {} rfl rfl _ (by simp [Input.ofOpenTokens]) ss

/-- Elements that each have a partner can be paired off. -/
theorem exists_forall₂_iff {α β : Type} {R : α → β → Prop} {as : List α} :
    (∃ bs, List.Forall₂ R as bs) ↔ ∀ a ∈ as, ∃ b, R a b := by
  induction as with
  | nil => simp
  | cons a as ih =>
    rw [List.forall_mem_cons, ← ih]
    constructor
    · rintro ⟨_, _ | ⟨hb, hbs⟩⟩
      exact ⟨⟨_, hb⟩, ⟨_, hbs⟩⟩
    · rintro ⟨⟨b, hb⟩, ⟨bs, hbs⟩⟩
      exact ⟨b :: bs, .cons hb hbs⟩

/-- Statements are read independently: a piece that is read alone is one statement, a list is read
exactly if each of its pieces is, and its statements are theirs. -/
theorem statements_independent {d : Dialect} (hd : d ∈ Dialect.builtins) (tokens : List Token) :
    (∀ piece ∈ pieces tokens, ∀ ss, readAll d piece = .ok ss → ∃ s, ss = [s]) ∧
      ((∃ ss, readAll d tokens = .ok ss) ↔
        ∀ piece ∈ pieces tokens, ∃ ss, readAll d piece = .ok ss) ∧
      ∀ ss, readAll d tokens = .ok ss ↔
        List.Forall₂ (fun piece s => readAll d piece = .ok [s]) (pieces tokens) ss := by
  have hsemicolon : d.reading.operator? ";" = none := by
    revert d
    decide +kernel
  have hone (piece : List Token) (hpiece : piece ∈ pieces tokens) (ss : List Statement)
      (h : readAll d piece = .ok ss) : ∃ s, ss = [s] := by
    have hall := (readAll_iff hsemicolon piece ss).mp h
    rw [pieces_of_mem hpiece] at hall
    obtain ⟨s, _, -, hnil, rfl⟩ := List.forall₂_cons_left_iff.mp hall
    obtain rfl := List.forall₂_nil_left_iff.mp hnil
    exact ⟨s, rfl⟩
  refine ⟨hone, ?_, readAll_iff hsemicolon tokens⟩
  simp only [readAll_iff hsemicolon tokens, exists_forall₂_iff]
  refine forall₂_congr fun piece hpiece => ⟨fun ⟨s, h⟩ => ⟨[s], h⟩, ?_⟩
  rintro ⟨ss, h⟩
  obtain ⟨s, rfl⟩ := hone piece hpiece ss h
  exact ⟨s, h⟩

/-- Two statements with a bare parameter each, and semicolons around them. -/
theorem twoSelects_independent : ∃ tokens finish,
    tokenize Dialect.mysql.lexical ";SELECT ?;; SELECT ?;" = .ok (tokens, finish) ∧
      (pieces tokens).length = 2 ∧ (∃ ss, readAll .mysql tokens = .ok ss) ∧
      ∀ piece ∈ pieces tokens, ∃ ss, readAll .mysql piece = .ok ss := by
  have hread : (tokenize Dialect.mysql.lexical ";SELECT ?;; SELECT ?;").toOption.map (fun r =>
      ((pieces r.1).length, (readAll .mysql r.1).toOption.isSome)) = some (2, true) := by
    decide +kernel
  cases htokens : tokenize Dialect.mysql.lexical ";SELECT ?;; SELECT ?;" with
  | error f => simp [htokens, Except.toOption] at hread
  | ok r =>
    obtain ⟨tokens, finish⟩ := r
    obtain ⟨hlength, hsome⟩ : (pieces tokens).length = 2 ∧
        (readAll .mysql tokens).toOption.isSome = true := by
      simpa [htokens, Except.toOption] using hread
    have hall : ∃ ss, readAll .mysql tokens = .ok ss := by
      cases h : readAll .mysql tokens with
      | error f => simp [h, Except.toOption] at hsome
      | ok ss => exact ⟨ss, rfl⟩
    have hindependent := statements_independent (d := .mysql) (by decide +kernel) tokens
    exact ⟨tokens, finish, rfl, hlength, hall, hindependent.2.1.mp hall⟩

end SqlDialects
