import SqlDialects.Proofs.ValuesKept

/-!
# The state of a parser between productions

* `ParserState` : the tokens, and the cursor with its marks and its depth of nesting;
* `Production`, `Production.run` : the productions that can be called on their own, from one state to the next;
* `level_counts`, `level_full` : what one level of nesting does to the depth, whatever the result;
* `Advances` : a parser that moves both marks of the cursor forward and blames no token before a given place;
* `state_disciplined` : whatever its result, a production keeps the tokens, moves neither mark of the cursor back or
  behind the end, restores the depth, and blames no token before the one at which it started.

The depth needs no pass over the grammar: a `Parser` carries the proof that it stops as deep as it started, which is
owed where a parser is made from its run, so at the steps that move the cursor and at `Parser.level`.
-/

namespace SqlDialects

open SqlDialects.Parser

/-! ## States and productions -/

/-- The state of a parser that can be used again: its tokens, and where it stands. -/
structure ParserState where
  input : Input
  cursor : Cursor

/-- The productions that can be called on their own. -/
inductive Production : Type → Type
  | expr : Production Expr
  | dataType : Production DataType
  | query : Production Query
  | insert : Production Insert
  | update : Production Update
  | delete : Production Delete
  | create : Production Statement
  | drop : Production Drop
  | statement : Production Statement
  | statements : Production (List Statement)

namespace Production

/-- The parser of a production. -/
def parser : {α : Type} → Production α → Parser α
  | _, .expr => Parser.expr
  | _, .dataType => Parser.dataType
  | _, .query => Parser.query
  | _, .insert => Parser.insert
  | _, .update => Parser.update
  | _, .delete => Parser.delete
  | _, .create => Parser.create
  | _, .drop => Parser.drop
  | _, .statement => Parser.statement
  | _, .statements => Parser.statements

/-- A production with the state that it leaves behind. -/
def run {α : Type} (p : Production α) (s : ParserState) : Except Fault α × ParserState :=
  let (r, c) := p.parser s.input s.cursor
  (r, { s with cursor := c })

end Production

/-! ## Levels of nesting -/

section Levels

variable {α : Type} {i : Input} {c : Cursor}

/-- Where a level is left, what is inside runs one level further down and stops there, and the depth is counted down
behind it, whether it succeeded or failed. -/
theorem level_counts (p : Parser α) (h : c.depth < maxDepth) :
    ∃ r e, p i c.down = (r, e) ∧ e.depth = c.depth + 1 ∧ level p i c = (r, { e with depth := c.depth }) := by
  cases hrun : p i c.down with
  | mk r e =>
    have hdepth : e.depth = c.depth + 1 := Parser.depth_of_run hrun
    refine ⟨r, e, rfl, hdepth, ?_⟩
    rw [level_of_lt h hrun, Cursor.up, hdepth, Nat.add_sub_cancel]

/-- Where no level is left, nothing is read, and the next token is to blame. -/
theorem level_full (p : Parser α) (h : maxDepth ≤ c.depth) :
    level p i c = (.error (.unexpected (i.token c.index).position [s!"at most {maxDepth} levels of nesting"]
      (i.token c.index).describe), c) :=
  if_pos h

end Levels

/-! ## What productions do to a cursor -/

/-- From a place on that both marks of the cursor have within the tokens, `p` moves them forward, and
it blames no token before the given place. -/
def Advances {α : Type} (x : Filling) (p : Parser α) : Prop :=
  ∀ c, x.start ≤ c.index → x.Moves c c →
    x.Moves c (p x.input c).2 ∧ ∀ f, (p x.input c).1 = .error f → x.Blames f

namespace Advances

variable {α β : Type} {x : Filling} {p : Parser α} {f : α → Parser β}

theorem of_keeps {R : Nat → α → α → Multiset Leaf → Prop} (h : ∀ k, Keeps x k p p R) :
    Advances x p := by
  intro c hstart hwithin
  have hat : x.At c.index c c := ⟨rfl, rfl, hstart, hwithin.room, hwithin.seen, rfl⟩
  rcases h c.index c c hat with ⟨a, e, b, ls, hrun, hmoves, -⟩ | ⟨y, e, hrun, hmoves, hblames⟩
  · rw [hrun]
    exact ⟨hmoves, by simp⟩
  · rw [hrun]
    exact ⟨hmoves, by simpa using hblames⟩

theorem pure (a : α) : Advances x (Pure.pure a : Parser α) :=
  fun _ _ hwithin => ⟨hwithin, fun _ h => by cases h⟩

theorem bind (hp : Advances x p) (hf : ∀ a, Advances x (f a)) : Advances x (p >>= f) := by
  intro c hstart hwithin
  obtain ⟨hmoves, hblames⟩ := hp c hstart hwithin
  cases hrun : p x.input c with
  | mk r e =>
    rw [hrun] at hmoves hblames
    cases r with
    | error y =>
      rw [Parser.bind_error hrun]
      exact ⟨hmoves, fun _ h => hblames _ (congrArg Except.error (Except.error.inj h))⟩
    | ok a =>
      have hwithin' : x.Moves e e := ⟨Nat.le_refl _, hmoves.room, Nat.le_refl _, hmoves.seen⟩
      have hrest := hf a e (Nat.le_trans hstart hmoves.index) hwithin'
      rw [Parser.bind_ok hrun]
      exact ⟨hmoves.trans hrest.1, hrest.2⟩

theorem ite {p' : Parser α} (b : Bool) (hp : Advances x p) (hp' : Advances x p') :
    Advances x (if b then p else p') := by
  cases b with
  | true => exact hp
  | false => exact hp'

theorem manyUpTo {p : Parser (Option α)} (hp : Advances x p) (n : Nat) :
    Advances x (Parser.manyUpTo p n) := by
  induction n with
  | zero => exact .pure []
  | succ n ih =>
    refine hp.bind fun o => ?_
    cases o with
    | none => exact .pure []
    | some a => exact ih.bind fun _ => .pure _

theorem remaining {f : Nat → Parser α} (hf : ∀ n, Advances x (f n)) :
    Advances x (Parser.remaining >>= f) :=
  fun c => hf (x.input.tokens.size - c.index) c

theorem atEnd : Advances x Parser.atEnd :=
  fun _ _ hwithin => ⟨hwithin, fun _ h => by cases h⟩

theorem resetBinds : Advances x Parser.resetBinds :=
  fun _ _ hwithin => ⟨⟨hwithin.index, hwithin.room, hwithin.furthest, hwithin.seen⟩,
    fun _ h => by cases h⟩

end Advances

section Statements

variable {x : Filling}

theorem semicolon_advances : Advances x semicolon :=
  .of_keeps (R := Same) fun _ => .test (.eatSymbol _) (fun _ => .pure ⟨rfl, rfl⟩)
    fun _ => .pure ⟨rfl, rfl⟩

theorem closing_advances (s : Statement) : Advances x (closing s) := by
  have hfail : Advances x (unexpected : Parser Unit) := .of_keeps (R := Same) fun _ => .unexpected
  refine Advances.atEnd.bind fun atEnd => .ite atEnd (.pure _) ?_
  refine Advances.bind (.of_keeps (R := Same) fun _ => .same_of_peeks (.checkSymbol ";")) fun closed => ?_
  exact .ite closed (.pure _) (hfail.bind fun _ => .pure _)

theorem nextStatement_advances : Advances x nextStatement := by
  rw [nextStatement_eq]
  refine Advances.bind (.remaining fun _ => semicolon_advances.manyUpTo _) fun _ => ?_
  refine Advances.atEnd.bind fun done => .ite done (.pure none) (Advances.resetBinds.bind fun _ => ?_)
  exact Advances.bind (.of_keeps fun _ => statement_keeps) closing_advances

theorem statements_advances : Advances x statements :=
  .remaining fun _ => nextStatement_advances.manyUpTo _

/-- Every production moves forward. -/
theorem production_advances {α : Type} (p : Production α) : Advances x p.parser := by
  cases p with
  | expr => exact .of_keeps (expr_keeps x)
  | query => exact .of_keeps (query_keeps x)
  | dataType => exact .of_keeps fun _ => dataType_keeps
  | insert => exact .of_keeps fun _ => insert_keeps
  | update => exact .of_keeps fun _ => update_keeps
  | delete => exact .of_keeps fun _ => delete_keeps
  | create => exact .of_keeps fun _ => create_keeps
  | drop => exact .of_keeps fun _ => drop_keeps
  | statement => exact .of_keeps fun _ => statement_keeps
  | statements => exact statements_advances

end Statements

/-! ## Runs -/

/-- Both marks of the cursor are tokens or the end of the text. -/
def ParserState.Within (s : ParserState) : Prop :=
  s.cursor.index ≤ s.input.tokens.size ∧ s.cursor.furthest ≤ s.input.tokens.size

/-- The states of a parser over the input `i` that is used again and again, whatever the productions returned. -/
inductive Reachable (i : Input) : ParserState → Prop
  | start : Reachable i ⟨i, {}⟩
  | step {α : Type} {s : ParserState} (p : Production α) (h : Reachable i s) : Reachable i (p.run s).2

/-- What a production that starts in the state `s` may leave behind: a result and the state `s'`. -/
structure Disciplined {α : Type} (s : ParserState) (r : Except Fault α) (s' : ParserState) : Prop where
  tokens : s'.input = s.input
  index : s.cursor.index ≤ s'.cursor.index
  furthest : s.cursor.furthest ≤ s'.cursor.furthest
  within : s'.Within
  depth : s'.cursor.depth = s.cursor.depth
  /-- A fault lies at the token at which the production started or behind it. -/
  blames : ∀ f, r = .error f → ∃ j expected found, s.cursor.index ≤ j ∧ j ≤ s.input.tokens.size ∧
    f = .unexpected (s.input.token j).position expected found

theorem run_disciplined {α : Type} (p : Production α) {s : ParserState} (hfinish : s.input.finish.kind = .finish)
    (hs : s.Within) : Disciplined s (p.run s).1 (p.run s).2 := by
  have hwithin : Filling.Moves ⟨s.input, fun _ => "", s.cursor.index, hfinish⟩ s.cursor s.cursor :=
    ⟨Nat.le_refl _, hs.1, Nat.le_refl _, hs.2⟩
  obtain ⟨hmoves, hblames⟩ := production_advances p s.cursor (Nat.le_refl _) hwithin
  have hleads := p.parser.leads s.input s.cursor
  exact ⟨rfl, hmoves.index, hmoves.furthest, ⟨hmoves.room, hmoves.seen⟩, hleads.depth, hblames⟩

theorem Reachable.within {i : Input} (hfinish : i.finish.kind = .finish) {s : ParserState} (h : Reachable i s) :
    s.input = i ∧ s.Within ∧ s.cursor.depth = 0 := by
  induction h with
  | start => exact ⟨rfl, ⟨Nat.zero_le _, Nat.zero_le _⟩, rfl⟩
  | step p _ ih =>
    obtain ⟨htokens, hwithin, hdepth⟩ := ih
    have hstep := run_disciplined p (htokens ▸ hfinish) hwithin
    exact ⟨hstep.tokens.trans htokens, hstep.within, hstep.depth.trans hdepth⟩

/-- The state of a parser is disciplined: over the tokens of a text, every production that starts with
both marks of the cursor within the tokens, at whatever depth, keeps the tokens, leaves the marks within them and not
before where they were, restores the depth, and blames no token before the one at which it started. All states that a
parser reaches are such. -/
theorem state_disciplined {d : Dialect} {sql : String} {tokens : List Token} {finish : Token}
    (h : tokenize d.lexical sql = .ok (tokens, finish)) :
    (∀ {α : Type} (p : Production α) (s : ParserState), s.input = .ofTokens d tokens finish → s.Within →
      Disciplined s (p.run s).1 (p.run s).2) ∧
      ∀ s, Reachable (.ofTokens d tokens finish) s →
        s.input = .ofTokens d tokens finish ∧ s.Within ∧ s.cursor.depth = 0 := by
  have hfinish : (Input.ofTokens d tokens finish).finish.kind = .finish := kind_finish h
  refine ⟨fun p s htokens hs => run_disciplined p ?_ hs, fun s hs => hs.within hfinish⟩
  rwa [htokens]

/-- An expression in the middle of a text, three levels down, that fails. -/
theorem state_disciplined_expr : ∃ tokens finish f s',
    tokenize Dialect.postgres.lexical "SELECT (1 + FROM t" = .ok (tokens, finish) ∧ tokens.length = 6 ∧
      Production.expr.run ⟨.ofTokens .postgres tokens finish, { index := 1, depth := 3 }⟩ = (.error f, s') ∧
      Disciplined (α := Expr) ⟨.ofTokens .postgres tokens finish, { index := 1, depth := 3 }⟩ (.error f) s' := by
  obtain ⟨⟨tokens, finish⟩, htokens, hrun⟩ := exists_ok (show
    (tokenize Dialect.postgres.lexical "SELECT (1 + FROM t").toOption.map (fun r => (r.1.length,
      (Production.expr.run ⟨.ofTokens .postgres r.1 r.2, { index := 1, depth := 3 }⟩).1.toOption.isSome)) =
        some (6, false) by decide +kernel)
  obtain ⟨hlength, hfails⟩ := Prod.mk.inj hrun
  have hdisciplined := (state_disciplined htokens).1 .expr
    ⟨.ofTokens .postgres tokens finish, { index := 1, depth := 3 }⟩ rfl
    ⟨by simp [Input.ofTokens, hlength], Nat.zero_le _⟩
  cases hresult : Production.expr.run ⟨.ofTokens .postgres tokens finish, { index := 1, depth := 3 }⟩ with
  | mk r s' =>
    rw [hresult] at hfails hdisciplined
    cases r with
    | ok e => simp [Except.toOption] at hfails
    | error f => exact ⟨tokens, finish, f, s', htokens, hlength, hresult, hdisciplined⟩

end SqlDialects
