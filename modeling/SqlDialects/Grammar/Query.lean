import SqlDialects.Grammar.Expr

/-!
# Reading queries

* `Parser.select`, `Parser.sources`, `Parser.limit` : the clauses of a query;
* `Parser.queryWith` : a query;
* `Parser.level` : a production one level of nesting down, which counts the levels and refuses to go too deep;
* `Parser.nested` : the productions at every level, and `Parser.expr`, `Parser.query` at the first one.

A count behind `TOP` belongs to the query of its `SELECT`; inside a set operation that query is one
of its own.
-/

namespace SqlDialects

namespace Parser

/-! ## Projections -/

/-- `AS` and a name, or a name alone. -/
def optionalAlias : Parser (Option Name) := do
  if ← eatWord "AS" then return some (← name)
  if (← peek).isName then return some (← name)
  return none

/-- The number of names before a star, for a qualified star that starts `k` places behind the next
token; at most `n` names are looked at. -/
def starParts (k : Nat) : Nat → Parser (Option Nat)
  | 0 => return none
  | n + 1 => do
    if (← peekNth k).isName && (← peekNth (k + 1)).isSymbol "." then
      if (← peekNth (k + 2)).isSymbol "*" then return some 1
      return (← starParts (k + 2) n).map (· + 1)
    return none

/-- A name and the dot behind it. -/
def starPart : Parser Name := do
  let part ← name
  let _ ← advance
  return part

/-- An item of a projection. -/
def selectItem (deeper : Deeper) : Parser SelectItem := do
  if ← eatSymbol "*" then return .star
  match ← starParts 0 ((← remaining) + 1) with
  | some n =>
    let parts ← times n starPart
    let _ ← advance
    return .qualifiedStar parts
  | none =>
    let value ← deeper.expr 0
    let label ← optionalAlias
    return .expr value label

/-! ## Sources -/

/-- The alias of a table, with names for its columns. -/
def tableAlias : Parser (Option TableAlias) := do
  match ← optionalAlias with
  | some label => return some ⟨label, ← optionalNameList⟩
  | none => return none

/-- A table, a query in parentheses, or a table-valued function. -/
def relation (deeper : Deeper) : Parser Relation := do
  if ← eatSymbol "(" then
    let query ← deeper.query
    expectSymbol ")"
    return .derived query (← tableAlias)
  let position := (← peek).position
  let table ← qualifiedName
  if ← peekSymbol "(" then
    nameFunction table
    let called ← call deeper (operandFrom deeper) (QualifiedName.dotted table) position
    let label ← tableAlias
    match called with
    | .call function => return .function function label
    | _ => unexpectedAt (← peek) "table function"
  else
    return .table table (← tableAlias)

/-- The rest of a join behind its first word. -/
def joinWord (outer : Bool) (kind : JoinKind) : Parser (Option JoinKind) := do
  if outer then
    let _ ← eatWord "OUTER"
  expectWord "JOIN"
  return some kind

/-- The words of a join, if they are next. -/
def joinKind (natural : Bool) : Parser (Option JoinKind) := do
  if ← eatWord "JOIN" then return some .inner
  if ← eatWord "INNER" then return ← joinWord false .inner
  if ← eatWord "LEFT" then return ← joinWord true .left
  if ← eatWord "RIGHT" then return ← joinWord true .right
  if ← onlyIf (← supports .fullOuterJoin) (eatWord "FULL") then return ← joinWord true .full
  if ← onlyIf (!natural) (eatWord "CROSS") then return ← joinWord false .cross
  if natural then unexpected
  return none

/-- The condition of a join of the given kind. -/
def joinCondition (deeper : Deeper) (natural : Bool) (kind : JoinKind) :
    Parser JoinCondition := do
  if natural then return .natural
  if kind == .cross then return .none
  if ← eatWord "ON" then return .on (← deeper.expr 0)
  if ← onlyIf (← supports .joinUsing) (eatWord "USING") then return .using (← nameList)
  unexpected

/-- A join, if one is next. -/
def join (deeper : Deeper) : Parser (Option Join) := do
  let natural ← onlyIf (← supports .naturalJoin) (eatWord "NATURAL")
  match ← joinKind natural with
  | some kind =>
    let relation ← relation deeper
    let condition ← joinCondition deeper natural kind
    return some ⟨relation, kind, condition⟩
  | none => return none

/-- A relation and the joins behind it. -/
def source (deeper : Deeper) : Parser Source := do
  let relation ← relation deeper
  let joins ← many (join deeper)
  return ⟨relation, joins⟩

/-! ## `SELECT` -/

/-- `DISTINCT` with or without keys, or `ALL`. -/
def distinctness (deeper : Deeper) : Parser (Option Distinct) := do
  if ← eatWord "DISTINCT" then
    let keyed := (← supports .distinctOn) && (← peekWord "ON") && (← peekNth 1).isSymbol "("
    if keyed then
      let _ ← advance
      let keys ← parenthesized (commaSeparated (deeper.expr 0))
      return some (.on keys)
    return some .all
  let _ ← eatWord "ALL"
  return none

/-- The count behind `TOP`. -/
def topCount (deeper : Deeper) : Parser Expr := do
  if ← eatSymbol "(" then
    let count ← deeper.expr 0
    expectSymbol ")"
    return count
  operandFrom deeper

/-- The sources of a `SELECT`, which some dialects require. -/
def sources (deeper : Deeper) : Parser (List Source) := do
  if ← eatWord "FROM" then
    return ← commaSeparated (source deeper)
  if (← rules).requireFrom then unexpected
  return []

/-- A `SELECT` block and the count behind its `TOP`. -/
def select (deeper : Deeper) : Parser (Select × Option Expr) := do
  let expr := deeper.expr 0
  expectWord "SELECT"
  let distinct ← distinctness deeper
  let top ← optional (do onlyIf (← rules).top (eatWord "TOP")) (topCount deeper)
  let items ← commaSeparated (selectItem deeper)
  let sources ← sources deeper
  let condition ← optional (eatWord "WHERE") expr
  let groupBy ← optionalList (eatWords ["GROUP", "BY"]) (commaSeparated expr)
  let having ← optional (eatWord "HAVING") expr
  let qualify ← optional (do onlyIf (← supports .qualify) (eatWord "QUALIFY")) expr
  return (⟨distinct, items, sources, condition, groupBy, having, qualify⟩, top)

/-! ## Set operations -/

/-- The operand of a set operation with the count behind its `TOP`, as a query of its own if it has
one. -/
def withTop (body : Body) : Option Expr → Body
  | none => body
  | some count => .query { Query.ofBody body with limit := some ⟨some count, none⟩ }

/-- An operand of a set operation and the count behind its `TOP`. -/
def setOperand (deeper : Deeper) : Parser (Body × Option Expr) := do
  if ← checkWord "SELECT" then
    let (block, top) ← select deeper
    return (.select block, top)
  if ← eatWord "VALUES" then
    let rows ← commaSeparated (parenthesized (commaSeparated (deeper.expr 0)))
    return (.values rows, none)
  if ← eatSymbol "(" then
    let query ← deeper.query
    expectSymbol ")"
    return (.query query, none)
  unexpected

/-- The word of a set operation, if it is next. -/
def setOp : Parser (Option SetOp) := do
  if ← eatWord "UNION" then return some .union
  if ← eatWord "INTERSECT" then return some .intersect
  if ← eatWord "EXCEPT" then return some .except
  if ← onlyIf (← rules).minus (eatWord "MINUS") then return some .except
  return none

/-- The word behind a set operation. -/
def setQuantifier : Parser SetQuantifier := do
  if ← eatWord "ALL" then return .all
  if ← eatWord "DISTINCT" then return .distinct
  return .none

/-- The body of a query combined with the operand behind the next set operation. -/
def moreBodies (deeper : Deeper) (left : Body × Option Expr) :
    Parser (Option (Body × Option Expr)) := do
  match ← setOp with
  | some op =>
    let quantifier ← setQuantifier
    let (right, top) ← setOperand deeper
    return some (.combine op quantifier (withTop left.1 left.2) (withTop right top), none)
  | none => return none

/-- The body of a query, and the count behind the `TOP` of a `SELECT` that is the whole body. -/
def body (deeper : Deeper) : Parser (Body × Option Expr) := do
  let first ← setOperand deeper
  iterate (moreBodies deeper) first

/-! ## Row limits -/

/-- The clauses of a row limit that have been read. -/
structure LimitClauses where
  count : Option Expr
  offset : Option Expr := none
  /-- Whether `LIMIT` was read, be it `LIMIT ALL`. -/
  limited : Bool := false
  /-- The token of the `OFFSET` clause. -/
  offsetToken : Option Token := none

/-- The clauses after one more. Each may come once, in any order that the dialect allows; where a
dialect has `TOP`, `FETCH` needs an offset before it. -/
def moreLimit (deeper : Deeper) (l : LimitClauses) : Parser (Option LimitClauses) := do
  let rules ← rules
  let expr := deeper.expr 0
  if ← onlyIf (rules.limit && !l.limited && l.count.isNone) (eatWord "LIMIT") then
    if ← eatWord "ALL" then return some { l with limited := true }
    let first ← expr
    if ← onlyIf (rules.limitComma && l.offset.isNone) (eatSymbol ",") then
      let count ← expr
      return some { l with limited := true, offset := some first, count := some count }
    return some { l with limited := true, count := some first }
  let free := l.offsetToken.isNone && l.offset.isNone
  if ← onlyIf (rules.offset && free) (checkWord "OFFSET") then
    let token ← advance
    let offset ← expr
    unless ← eatWord "ROWS" do
      let _ ← eatWord "ROW"
    return some { l with offset := some offset, offsetToken := some token }
  let fetch := rules.fetch && (!rules.top || l.offset.isSome)
  if ← onlyIf (fetch && l.count.isNone) (eatWord "FETCH") then
    unless ← eatWord "FIRST" do expectWord "NEXT"
    let count ← expr
    unless ← eatWord "ROWS" do expectWord "ROW"
    expectWord "ONLY"
    return some { l with count := some count }
  return none

/-- The row limit of a query whose `SELECT` has the count `top`; `ordered` tells whether the query
has an ordering. -/
def limit (deeper : Deeper) (top : Option Expr) (ordered : Bool) : Parser (Option Limit) := do
  let l ← iterate (moreLimit deeper) { count := top }
  let rules ← rules
  if let some token := l.offsetToken then
    if rules.offsetRequiresOrder && !ordered then unexpectedAt token "ORDER BY before OFFSET"
    if rules.offsetRequiresLimit && !l.limited then unexpectedAt token "LIMIT before OFFSET"
  return if l.count.isNone && l.offset.isNone then none else some ⟨l.count, l.offset⟩

/-! ## Queries -/

/-- A common table expression. -/
def cte (deeper : Deeper) : Parser Cte := do
  let label ← name
  let columns ← optionalNameList
  expectWord "AS"
  let query ← parenthesized deeper.query
  return ⟨label, columns, query⟩

/-- The common table expressions behind `WITH`. -/
def ctes (deeper : Deeper) : Parser With := do
  let recursive ← eatWord "RECURSIVE"
  let tables ← commaSeparated (cte deeper)
  return ⟨recursive, tables⟩

/-- A query. -/
def queryWith (deeper : Deeper) : Parser Query := do
  let ctes ← optional (eatWord "WITH") (ctes deeper)
  let (body, top) ← body deeper
  let orderBy ← orderBy deeper
  let limit ← limit deeper top (!orderBy.isEmpty)
  return ⟨ctes, body, orderBy, limit⟩

/-! ## Levels -/

/-- The number of levels of nesting that are accepted. -/
def maxDepth : Nat := 128

/-- Fails because the nesting is too deep. -/
def tooDeep {α : Type} : Parser α := do
  unexpectedAt (← peek) s!"at most {maxDepth} levels of nesting"

/-- The parser `p` one level of nesting down: the depth is counted up before it and down behind it, whatever its
result. Where the levels are used up, it is refused. -/
def level {α : Type} (p : Parser α) : Parser α where
  run i c :=
    if maxDepth ≤ c.depth then tooDeep i c
    else
      let (r, e) := p i c.down
      (r, e.up)
  leads i c := by
    split
    · exact (tooDeep : Parser α).leads i c
    · have hp := p.leads i c.down
      exact ⟨congrArg (· - 1) hp.depth, hp.functions⟩

section Level

variable {α : Type} {p : Parser α} {i : Input} {c d : Cursor} {r : Except Fault α}

theorem level_of_lt (hdepth : c.depth < maxDepth) (hrun : p i c.down = (r, d)) : level p i c = (r, d.up) := by
  simp [level, Nat.not_le.mpr hdepth, hrun]

/-- A level down is refused where the levels are used up, and else what the parser makes of it there. -/
theorem level_cases (h : level p i c = (r, d)) : (maxDepth ≤ c.depth ∧ tooDeep i c = (r, d)) ∨
    c.depth < maxDepth ∧ ∃ e, p i c.down = (r, e) ∧ d = e.up := by
  rcases Nat.lt_or_ge c.depth maxDepth with hdepth | hdepth
  · obtain ⟨rfl, rfl⟩ := Prod.mk.inj ((level_of_lt hdepth rfl).symm.trans h)
    exact .inr ⟨hdepth, _, rfl, rfl⟩
  · exact .inl ⟨hdepth, (if_pos hdepth).symm.trans h⟩

end Level

/-- The productions at a level with at most `n` more levels below it. -/
def nested : Nat → Deeper
  | 0 => ⟨fun _ => tooDeep, tooDeep⟩
  | n + 1 => ⟨fun least => level (subexpr (nested n) least), level (queryWith (nested n))⟩

/-- The productions at the first level. No more levels are entered than `level` counts, so more levels than it
accepts would make no difference. -/
def outermost : Deeper := nested maxDepth

/-- An expression. -/
def expr : Parser Expr := outermost.expr 0

/-- A query. -/
def query : Parser Query := outermost.query

-- The levels are unfolded one at a time: to compare `outermost` with another level opens all of them.

theorem expr_eq : expr = level (subexpr (nested 127) 0) := by
  rw [expr, outermost, maxDepth, nested]

theorem query_eq : query = level (queryWith (nested 127)) := by
  rw [query, outermost, maxDepth, nested]

end Parser

end SqlDialects
