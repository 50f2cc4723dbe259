import SqlDialects.Proofs.Origins
import SqlDialects.Proofs.ValuesKept

/-!
# The clauses behind a query

* `YieldsAt` : the results of a parser that starts at a given token;
* `LimitClauses.Grows`, `moreLimit_grows` : what one clause of a row limit records;
* `Clauses` : the clauses, read one after the other, with the token that each of them starts with;
* `limit_ok_iff` : the row limits that are accepted;
* `Query.ReadWith` : a query that is read with clauses that start with the given tokens;
* `offset_has_limit` : where the dialect asks for it, a query with an `OFFSET` clause has a `LIMIT` clause.

The clauses are judged once all of them are read, so the order in which the two stand does not matter.
-/

namespace SqlDialects

open SqlDialects.Parser

/-! ## Results at a token -/

/-- Every result of `p` that starts at the token `k` of the input `i` has the property `P`, as long as the names of
the functions that were read satisfy `N`. -/
def YieldsAt {α : Type} (i : Input) (k : Nat) (p : Parser α) (P : α → Prop)
    (N : List Name → Prop := fun _ => True) : Prop :=
  ∀ c a c', c.index = k → p i c = (.ok a, c') → (∀ ns ∈ c'.functions, N ns) → P a

theorem checkWord_run (word : String) (i : Input) (c : Cursor) :
    ∃ e, e.index = c.index ∧ checkWord word i c = (.ok ((i.token c.index).isWord word), e) := by
  cases hword : (i.token c.index).isWord word with
  | true => exact ⟨c, rfl, by simp [checkWord, peekWord, peek, peekNth, look, Bind.bind, Pure.pure, hword]⟩
  | false =>
    refine ⟨c.note c.index (Text.upper word), c.note_index _ _, ?_⟩
    simp [checkWord, peekWord, peek, peekNth, look, expectHere, expectNth, Bind.bind, Pure.pure, hword]

namespace YieldsAt

variable {α β : Type} {i : Input} {k : Nat} {P : α → Prop} {N : List Name → Prop} {word : String}

theorem of_yieldsOn {p : Parser α} (h : YieldsOn i p P N) : YieldsAt i k p P N :=
  fun c a c' _ heq => h c a c' heq

theorem advance {f : Token → Parser α} (h : YieldsOn i (f (i.token k)) P N) :
    YieldsAt i k (Parser.advance >>= f) P N := by
  rintro c b c' rfl heq
  exact h _ b c' heq

theorem rules {f : ReadingRules → Parser α} (h : YieldsAt i k (f i.dialect.reading) P N) :
    YieldsAt i k (Parser.rules >>= f) P N := h

/-- A word that is asked for, if the test is made, is the next token or not, and still to be read. -/
theorem checkWord {b : Bool} {g : Bool → Parser α} (h : YieldsAt i k (g (b && (i.token k).isWord word)) P N) :
    YieldsAt i k (onlyIf b (Parser.checkWord word) >>= g) P N := by
  cases b with
  | false => exact h
  | true =>
    rintro c a c' rfl heq
    obtain ⟨e, he, hrun⟩ := checkWord_run word i c
    replace heq := (Parser.bind_ok hrun).symm.trans heq
    exact h e a c' he heq

theorem eatWord {b : Bool} {g : Bool → Parser α}
    (hyes : (b && (i.token k).isWord word) = true → YieldsOn i (g true) P N)
    (hno : (b && (i.token k).isWord word) = false → YieldsAt i k (g false) P N) :
    YieldsAt i k (onlyIf b (Parser.eatWord word) >>= g) P N := by
  cases b with
  | false => exact hno rfl
  | true =>
    rintro c a c' rfl heq
    obtain ⟨e, he, hrun⟩ := checkWord_run word i c
    cases hword : (i.token c.index).isWord word with
    | true =>
      have heat : Parser.eatWord word i c = (Parser.advance >>= fun _ => Pure.pure true) i e := by
        rw [Parser.eatWord, Parser.bind_ok hrun, hword]
        rfl
      exact hyes hword _ a c' ((Parser.bind_ok (heat.trans rfl)).symm.trans heq)
    | false =>
      have heat : Parser.eatWord word i c = (.ok false, e) := by
        rw [Parser.eatWord, Parser.bind_ok hrun, hword]
        rfl
      exact hno hword e a c' he ((Parser.bind_ok heat).symm.trans heq)

end YieldsAt

/-! ## One clause -/

section Clause

variable {i : Input} {deeper : Deeper} {l l' : LimitClauses} {o : Option LimitClauses} {c c' : Cursor}

/-- What a clause that starts with the token `t` records. -/
inductive Parser.LimitClauses.Grows (l : LimitClauses) (t : Token) (l' : LimitClauses) : Prop
  | limit (word : t.isWord "LIMIT" = true) (limited : l'.limited = true)
      (offset : l'.offsetToken = l.offsetToken)
  | offset (word : t.isWord "OFFSET" = true) (limited : l'.limited = l.limited)
      (offset : l'.offsetToken = some t)
  | fetch (word : t.isWord "FETCH" = true) (limited : l'.limited = l.limited)
      (offset : l'.offsetToken = l.offsetToken)

theorem moreLimit_grows (h : moreLimit deeper l i c = (.ok (some l'), c')) :
    l.Grows (i.token c.index) l' := by
  have hsome {l' : LimitClauses} (h : l.Grows (i.token c.index) l') :
      YieldsOn i (Pure.pure (some l')) fun o => ∀ l' ∈ o, l.Grows (i.token c.index) l' :=
    .pure (by simpa using h)
  have hgrows : YieldsAt i c.index (moreLimit deeper l) fun o =>
      ∀ l' ∈ o, l.Grows (i.token c.index) l' := by
    refine .rules ?_
    extract_lets expr free fetch behind
    refine .eatWord (fun hword => ?_) fun _ => .checkWord ?_
    · have hlimit {l' : LimitClauses} (hl : l'.limited = true)
          (ho : l'.offsetToken = l.offsetToken) := hsome (.limit (Bool.and_eq_true_iff.mp hword).2 hl ho)
      exact .test (hlimit rfl rfl) (.skip fun first =>
        .test (.skip fun count => hlimit rfl rfl) (hlimit rfl rfl))
    split
    · next hword =>
      have hoffset {l' : LimitClauses} (hl : l'.limited = l.limited)
          (ho : l'.offsetToken = some (i.token c.index)) :=
        hsome (.offset (Bool.and_eq_true_iff.mp hword).2 hl ho)
      refine .advance (.skip fun offset => .test (hoffset rfl rfl) (.skip fun _ => ?_))
      exact hoffset rfl rfl
    refine .eatWord (fun hword => ?_) fun _ => .of_yieldsOn (.pure (by simp))
    have hbehind (u : Unit) :
        YieldsOn i (behind u) fun o => ∀ l' ∈ o, l.Grows (i.token c.index) l' := by
      refine .skip fun count => ?_
      have hfetch : l.Grows (i.token c.index) { l with count := some count } :=
        .fetch (Bool.and_eq_true_iff.mp hword).2 rfl rfl
      exact .test (.skip fun _ => hsome hfetch) (.skip fun _ => .skip fun _ => hsome hfetch)
    exact .test (hbehind ()) (.skip hbehind)
  exact hgrows c _ c' rfl h (fun _ _ => trivial) l' rfl

/-- Whether a clause that starts with the token `t` may follow the clauses of `l`. -/
def Parser.LimitClauses.goesOn (l : LimitClauses) (r : ReadingRules) (t : Token) : Bool :=
  r.limit && !l.limited && l.count.isNone && t.isWord "LIMIT" ||
    r.offset && (l.offsetToken.isNone && l.offset.isNone) && t.isWord "OFFSET" ||
      r.fetch && (!r.top || l.offset.isSome) && l.count.isNone && t.isWord "FETCH"

/-- A clause is read exactly where one may come. -/
theorem moreLimit_isSome (h : moreLimit deeper l i c = (.ok o, c')) :
    o.isSome = l.goesOn i.dialect.reading (i.token c.index) := by
  have hsome {b : Bool} (hb : b = true) (l' : LimitClauses) :
      YieldsOn i (Pure.pure (some l')) fun o => o.isSome = b := .pure hb.symm
  have hyields : YieldsAt i c.index (moreLimit deeper l) fun o =>
      o.isSome = l.goesOn i.dialect.reading (i.token c.index) := by
    refine .rules ?_
    unfold LimitClauses.goesOn
    extract_lets expr free fetch behind
    refine .eatWord (fun hlimit => ?_) fun hlimit => .checkWord ?_
    · rw [hlimit, Bool.true_or, Bool.true_or]
      exact .test (hsome rfl _) (.skip fun first => .test (.skip fun count => hsome rfl _) (hsome rfl _))
    rw [hlimit, Bool.false_or]
    split
    · next hoffset =>
      rw [hoffset, Bool.true_or]
      exact .advance (.skip fun offset => .test (hsome rfl _) (.skip fun _ => hsome rfl _))
    · next hoffset =>
      rw [Bool.eq_false_iff.mpr hoffset, Bool.false_or]
      refine .eatWord (fun hfetch => ?_) fun hfetch => ?_
      · rw [hfetch]
        have hbehind (u : Unit) : YieldsOn i (behind u) fun o => o.isSome = true :=
          .skip fun count => .test (.skip fun _ => hsome rfl _) (.skip fun _ => .skip fun _ => hsome rfl _)
        exact .test (hbehind ()) (.skip hbehind)
      · rw [hfetch]
        exact .of_yieldsOn (.pure rfl)
  exact hyields c o c' rfl h fun _ _ => trivial

/-- A token is one word only. -/
theorem Token.isWord_eq_false {t : Token} {a b : String} (h : t.isWord a = true)
    (hne : Text.upper a ≠ Text.upper b) : t.isWord b = false := by
  by_contra hb
  simp only [Token.isWord, Bool.not_eq_false, Bool.and_eq_true, Text.sameWord_iff] at h hb
  exact hne (h.2.symm.trans hb.2)

theorem Parser.LimitClauses.Grows.limited {t : Token} (h : l.Grows t l') :
    l'.limited = (l.limited || t.isWord "LIMIT") := by
  cases h with
  | limit word limited _ => rw [limited, word, Bool.or_true]
  | offset word limited _ | fetch word limited _ =>
    rw [limited, Token.isWord_eq_false word (by decide), Bool.or_false]

theorem Parser.LimitClauses.Grows.hasOffset {t : Token} (h : l.Grows t l') :
    l'.offsetToken.isSome = (l.offsetToken.isSome || t.isWord "OFFSET") := by
  cases h with
  | offset word _ offset => rw [offset, word, Bool.or_true, Option.isSome_some]
  | limit word _ offset | fetch word _ offset =>
    rw [offset, Token.isWord_eq_false word (by decide), Bool.or_false]

end Clause

/-! ## All clauses -/

/-- From the state `l` at the cursor `c` clauses that start with the tokens `ts` are read, in this order, up
to the state `l'` at `c'`, where no clause follows. -/
inductive Clauses (deeper : Deeper) (i : Input) :
    LimitClauses → Cursor → List Token → LimitClauses → Cursor → Prop
  | done {l : LimitClauses} {c c' : Cursor} (h : moreLimit deeper l i c = (.ok none, c')) :
    Clauses deeper i l c [] l c'
  | more {l l' m : LimitClauses} {c c' e : Cursor} {ts : List Token}
    (h : moreLimit deeper l i c = (.ok (some l'), c')) (rest : Clauses deeper i l' c' ts m e) :
    Clauses deeper i l c (i.token c.index :: ts) m e

section Clauses

variable {i : Input} {deeper : Deeper} {l l' : LimitClauses} {c c' : Cursor} {ts : List Token}

theorem Clauses.limited (h : Clauses deeper i l c ts l' c') :
    l'.limited = (l.limited || ts.any (·.isWord "LIMIT")) := by
  induction h with
  | done => rw [List.any_nil, Bool.or_false]
  | more h _ ih => rw [ih, (moreLimit_grows h).limited, List.any_cons, Bool.or_assoc]

theorem Clauses.hasOffset (h : Clauses deeper i l c ts l' c') :
    l'.offsetToken.isSome = (l.offsetToken.isSome || ts.any (·.isWord "OFFSET")) := by
  induction h with
  | done => rw [List.any_nil, Bool.or_false]
  | more h _ ih => rw [ih, (moreLimit_grows h).hasOffset, List.any_cons, Bool.or_assoc]

variable {n : Nat} (hsemicolon : i.dialect.reading.operator? ";" = none)
  (hfinish : i.finish.isStop = true)

include hsemicolon hfinish

/-- A clause takes a token. -/
theorem moreLimit_moves (h : moreLimit (nested n) l i c = (.ok (some l'), c')) :
    c.index < c'.index ∧ c'.index ≤ i.tokens.size := by
  have hlt : c.index < i.tokens.size := by
    by_contra hge
    have htoken : i.token c.index = i.finish := by
      rw [Input.token, Array.getElem?_eq_none (Nat.le_of_not_lt hge), Option.getD_none]
    have hgrows := moreLimit_grows h
    rw [htoken] at hgrows
    cases hgrows with
    | limit word | offset word | fetch word =>
      rw [Token.isWord_of_isStop hfinish] at word
      cases word
  have hmirrors : Mirrors (.ofInput i hsemicolon hfinish) (i.tokens.size - c.index)
      (moreLimit (nested n) l) (moreLimit (nested n) l) (Steps (i.tokens.size - c.index)) :=
    moreLimit_mirrors (nested_local _ n) l
  obtain ⟨m, -, hrest, hstep⟩ := hmirrors.leaves (Nat.add_sub_cancel' hlt.le) h
  have := hstep rfl
  omega

/-- Clauses are read until none follows. -/
theorem Clauses.iterateUpTo (h : Clauses (nested n) i l c ts l' c') (k : Nat)
    (hk : i.tokens.size - c.index < k) :
    Parser.iterateUpTo (moreLimit (nested n)) l k i c = (.ok l', c') := by
  induction h generalizing k with
  | done h =>
    obtain ⟨k, rfl⟩ := Nat.exists_eq_add_of_lt hk
    exact Parser.bind_ok h
  | more h _ ih =>
    obtain ⟨j, rfl⟩ := Nat.exists_eq_add_of_lt hk
    have hmoves := moreLimit_moves hsemicolon hfinish h
    exact (Parser.bind_ok h).trans (ih _ (by omega))

theorem exists_clauses (k : Nat) (hk : i.tokens.size - c.index < k)
    (h : Parser.iterateUpTo (moreLimit (nested n)) l k i c = (.ok l', c')) :
    ∃ ts, Clauses (nested n) i l c ts l' c' := by
  induction k generalizing l c with
  | zero => cases hk
  | succ k ih =>
    obtain ⟨o, e, hstep, hrest⟩ := Parser.of_bind_ok h
    cases o with
    | none =>
      obtain ⟨rfl, rfl⟩ : l = l' ∧ e = c' := by simpa [Pure.pure, look] using hrest
      exact ⟨[], .done hstep⟩
    | some m =>
      have hmoves := moreLimit_moves hsemicolon hfinish hstep
      obtain ⟨ts, hts⟩ := ih (by omega) hrest
      exact ⟨_, .more hstep hts⟩

/-- A row limit is refused for the words that its clauses start with, in whatever order they stand. -/
theorem limit_ok_iff {top : Option Expr} {ordered : Bool}
    (h : Clauses (nested n) i { count := top } c ts l c') :
    (∃ o e, limit (nested n) top ordered i c = (.ok o, e)) ↔
      (ts.any (·.isWord "OFFSET") = true →
        (i.dialect.reading.offsetRequiresOrder = true → ordered = true) ∧
        (i.dialect.reading.offsetRequiresLimit = true → ts.any (·.isWord "LIMIT") = true)) := by
  have hrun : iterate (moreLimit (nested n)) { count := top } i c = (.ok l, c') :=
    h.iterateUpTo hsemicolon hfinish _ (Nat.lt_succ_self _)
  have hlimited : l.limited = ts.any (·.isWord "LIMIT") := h.limited
  have hoffset : l.offsetToken.isSome = ts.any (·.isWord "OFFSET") := h.hasOffset
  rw [← hlimited, ← hoffset, limit, Parser.bind_ok hrun]
  cases htoken : l.offsetToken with
  | none => simp [Parser.rules, look, Bind.bind, Pure.pure]
  | some token =>
    cases horder : i.dialect.reading.offsetRequiresOrder && !ordered with
    | true =>
      have hno : i.dialect.reading.offsetRequiresOrder = true ∧ ordered = false := by simpa using horder
      simp [Parser.rules, look, Bind.bind, unexpectedAt, fail, hno]
    | false =>
      have hordered : i.dialect.reading.offsetRequiresOrder = true → ordered = true := by
        simpa using horder
      cases hlimit : i.dialect.reading.offsetRequiresLimit && !l.limited with
      | true =>
        have hno : i.dialect.reading.offsetRequiresLimit = true ∧ l.limited = false := by
          simpa using hlimit
        simp only [Parser.rules, look, Bind.bind, horder, hno.1, hno.2]
        simp [unexpectedAt, fail]
      | false =>
        have hlimited : i.dialect.reading.offsetRequiresLimit = true → l.limited = true := by
          simpa using hlimit
        refine iff_of_true ?_ fun _ => ⟨hordered, hlimited⟩
        simp only [Parser.rules, look, Bind.bind, Pure.pure, horder, hlimit, Bool.false_eq_true]
        exact ⟨_, _, rfl⟩

end Clauses

/-! ## Queries -/

/-- The parts of a query before its row limit. -/
def Parser.unlimited (deeper : Deeper) :
    Parser (Option With × (Body × Option Expr) × List OrderItem) := do
  let ctes ← optional (eatWord "WITH") (ctes deeper)
  let first ← body deeper
  let order ← orderBy deeper
  return (ctes, first, order)

/-- A row limit stands behind the other parts. -/
theorem unlimited_of_queryWith {deeper : Deeper} {i : Input} {c c' : Cursor} {q : Query}
    (h : queryWith deeper i c = (.ok q, c')) :
    ∃ parts e, unlimited deeper i c = (.ok parts, e) ∧
      limit deeper parts.2.1.2 (!parts.2.2.isEmpty) i e = (.ok q.limit, c') := by
  obtain ⟨w, e₁, hctes, h⟩ := Parser.of_bind_ok h
  obtain ⟨first, e₂, hbody, h⟩ := Parser.of_bind_ok h
  obtain ⟨order, e₃, horder, h⟩ := Parser.of_bind_ok h
  obtain ⟨l, e₄, hlimit, h⟩ := Parser.of_bind_ok h
  obtain ⟨rfl, rfl⟩ : ⟨w, first.1, order, l⟩ = q ∧ e₄ = c' := by simpa [Pure.pure, look] using h
  refine ⟨(w, first, order), e₃, ?_, hlimit⟩
  rw [unlimited, Parser.bind_ok hctes, Parser.bind_ok hbody, Parser.bind_ok horder]
  rfl

/-- The query is read in the input, and the clauses of its row limit start with the tokens `ts`, in the order
in which they stand. -/
def Query.ReadWith (i : Input) (q : Query) (ts : List Token) : Prop :=
  ∃ n c c' parts e l e', queryWith (nested n) i c = (.ok q, c') ∧
    unlimited (nested n) i c = (.ok parts, e) ∧
      Clauses (nested n) i { count := parts.2.1.2 } e ts l e'

section Queries

variable {i : Input} {q : Query} {ts : List Token} (hsemicolon : i.dialect.reading.operator? ";" = none)
  (hfinish : i.finish.isStop = true)

include hsemicolon hfinish

theorem Query.ReadFrom.readWith (h : q.ReadFrom i) : ∃ ts, q.ReadWith i ts := by
  obtain ⟨n, c, c', h⟩ := h
  obtain ⟨parts, e, hparts, hlimit⟩ := unlimited_of_queryWith h
  obtain ⟨l, e', hclauses, -⟩ := Parser.of_bind_ok hlimit
  obtain ⟨ts, hts⟩ := exists_clauses hsemicolon hfinish _ (Nat.lt_succ_self _) hclauses
  exact ⟨ts, n, c, c', parts, e, l, e', h, hparts, hts⟩

theorem Query.ReadWith.limit_of_offset (hlimit : i.dialect.reading.offsetRequiresLimit = true)
    (h : q.ReadWith i ts) (hoffset : ∃ t ∈ ts, t.isWord "OFFSET" = true) :
    ∃ t ∈ ts, t.isWord "LIMIT" = true := by
  obtain ⟨n, c, c', parts, e, l, e', hquery, hparts, hclauses⟩ := h
  obtain ⟨parts', e'', hparts', hlimit'⟩ := unlimited_of_queryWith hquery
  obtain ⟨heq, rfl⟩ := Prod.mk.inj (hparts.symm.trans hparts')
  obtain rfl := Except.ok.inj heq
  have haccepted := (limit_ok_iff hsemicolon hfinish hclauses).mp ⟨_, _, hlimit'⟩
  exact List.any_eq_true.mp ((haccepted (List.any_eq_true.mpr hoffset)).2 hlimit)

end Queries

/-- Where a dialect asks for `LIMIT` before `OFFSET`, every query of an accepted text, at whatever depth, that
has an `OFFSET` clause has a `LIMIT` clause too, before it or behind it. -/
theorem offset_has_limit {d : Dialect} (hd : d ∈ Dialect.builtins)
    (hlimit : d.reading.offsetRequiresLimit = true) {sql : String} {ss : List Statement}
    (h : parse d sql = .ok ss) :
    ∃ tokens finish, tokenize d.lexical sql = .ok (tokens, finish) ∧
      ∀ s ∈ ss, ∀ q, .query q ∈ s.nodes →
        (∃ ts, q.ReadWith (.ofTokens d tokens finish) ts) ∧
        ∀ ts, q.ReadWith (.ofTokens d tokens finish) ts →
          (∃ t ∈ ts, t.isWord "OFFSET" = true) → ∃ t ∈ ts, t.isWord "LIMIT" = true := by
  have hrules : d.reading.operator? ";" = none ∧
      (d.reading.offsetRequiresLimit = true → d.reading.top = false) := by
    clear hlimit h
    revert d
    decide +kernel
  obtain ⟨tokens, finish, htokens, hread⟩ := parsed_sourced h
  have hfinish : finish.isStop = true := by simp [Token.isStop, kind_finish htokens]
  refine ⟨tokens, finish, htokens, fun s hs q hq => ⟨?_, fun ts hts => ?_⟩⟩
  · exact (hread s hs _ hq (hrules.2 hlimit)).readWith hrules.1 hfinish
  · exact hts.limit_of_offset hrules.1 hfinish hlimit

/-- The two clauses in the other order. -/
theorem offset_has_limit_behind : ∃ ss, ss.length = 1 ∧
    parse .mysql "SELECT a FROM t OFFSET 1 LIMIT 5" = .ok ss ∧
    ∃ tokens finish,
      tokenize Dialect.mysql.lexical "SELECT a FROM t OFFSET 1 LIMIT 5" = .ok (tokens, finish) ∧
      ∀ s ∈ ss, ∀ q, .query q ∈ s.nodes →
        (∃ ts, q.ReadWith (.ofTokens .mysql tokens finish) ts) ∧
        ∀ ts, q.ReadWith (.ofTokens .mysql tokens finish) ts →
          (∃ t ∈ ts, t.isWord "OFFSET" = true) → ∃ t ∈ ts, t.isWord "LIMIT" = true := by
  obtain ⟨ss, hparse, hlength⟩ := exists_ok (show (parse .mysql
    "SELECT a FROM t OFFSET 1 LIMIT 5").toOption.map List.length = some 1 by decide +kernel)
  exact ⟨ss, hlength, hparse, offset_has_limit (by decide +kernel) rfl hparse⟩

end SqlDialects
