import SqlDialects.Tree.Scalar

/-!
# Expressions and queries

* `Expr` : scalar expressions, with `Branch`, `Call`, `Arg`, `Window`, `Frame`, `Bound`;
* `Query` : queries, with their `Body`, `Select`, sources, joins, ordering and row limit.

The two are mutual: an expression may hold a query and a query holds expressions. A row limit is
kept as its count and its offset, whatever clause wrote it.
-/

namespace SqlDialects

/-- The unit of a window frame. -/
inductive FrameUnit where
  | rows
  | range
deriving DecidableEq, Repr

/-- How two queries are combined. -/
inductive SetOp where
  | union
  | intersect
  | except
deriving DecidableEq, Repr

/-- The word behind a set operation. -/
inductive SetQuantifier where
  | none
  | all
  | distinct
deriving DecidableEq, Repr

/-- The kind of a join. -/
inductive JoinKind where
  | inner
  | left
  | right
  | full
  | cross
deriving DecidableEq, Repr

/-- The name given to a source of rows, with names for its columns. -/
structure TableAlias where
  name : Name
  columns : List Name
deriving DecidableEq, Repr

mutual

/-- A scalar expression. -/
inductive Expr where
  | name (n : Name)
  /-- A dotted reference to a column. -/
  | path (parts : List Name)
  | literal (value : Literal)
  | param (p : Param)
  | binary (left : Expr) (op : BinaryOp) (right : Expr)
  | unary (op : UnaryOp) (operand : Expr)
  | call (function : Call)
  /-- A cast; a safe one yields null where the value does not fit. -/
  | cast (operand : Expr) (type : DataType) (safe : Bool)
  | case (operand : Option Expr) (branches : List Branch) (otherwise : Option Expr)
  /-- The conditional of three arguments. -/
  | cond (condition yes no : Expr)
  | between (operand : Expr) (negated : Bool) (low high : Expr)
  | inList (operand : Expr) (items : List Expr) (negated : Bool)
  | inQuery (operand : Expr) (query : Query) (negated : Bool)
  | like (operand pattern : Expr) (negated anyCase : Bool) (escape : Option Expr)
  | isNull (operand : Expr) (negated : Bool)
  | exists (query : Query) (negated : Bool)
  | subquery (query : Query)
  /-- An expression in parentheses of its own. -/
  | nested (operand : Expr)
  | extract (field : DateField) (operand : Expr)
  | interval (amount : Expr) (unit : Option DateField)
  /-- The current date, time or timestamp. -/
  | now (kind : TemporalKind)

/-- A branch of a `CASE` expression. -/
structure Branch where
  condition : Expr
  result : Expr

/-- A function call, possibly over a window. The name is in upper case for functions that every
dialect knows, and as written for others. -/
structure Call where
  name : String
  args : List Arg
  distinct : Bool
  window : Option Window

/-- An argument of a call. -/
inductive Arg where
  | expr (value : Expr)
  /-- The star of `COUNT(*)`. -/
  | star

/-- The window of a call. -/
structure Window where
  partitionBy : List Expr
  orderBy : List OrderItem
  frame : Option Frame

/-- A window frame; without `stop` only its start is written. -/
structure Frame where
  unit : FrameUnit
  start : Bound
  stop : Option Bound

/-- An end of a window frame. -/
inductive Bound where
  | unboundedPreceding
  | preceding (offset : Expr)
  | currentRow
  | following (offset : Expr)
  | unboundedFollowing

/-- A key of an ordering. -/
structure OrderItem where
  key : Expr
  ascending : Option Bool
  nullsFirst : Option Bool

/-- A query with its common table expressions, ordering and row limit. -/
structure Query where
  ctes : Option With
  body : Body
  orderBy : List OrderItem
  limit : Option Limit

/-- The common table expressions of a query. -/
structure With where
  recursive : Bool
  tables : List Cte

/-- A common table expression. -/
structure Cte where
  name : Name
  columns : List Name
  query : Query

/-- A count of rows and a number of rows to skip. -/
structure Limit where
  count : Option Expr
  offset : Option Expr

/-- What a query computes before ordering and limit. -/
inductive Body where
  | select (block : Select)
  | combine (op : SetOp) (quantifier : SetQuantifier) (left right : Body)
  /-- A query in parentheses. -/
  | query (inner : Query)
  | values (rows : List (List Expr))

/-- A `SELECT` block. -/
structure Select where
  distinct : Option Distinct
  items : List SelectItem
  sources : List Source
  condition : Option Expr
  groupBy : List Expr
  having : Option Expr
  qualify : Option Expr

/-- How duplicates are removed. -/
inductive Distinct where
  | all
  | on (keys : List Expr)

/-- An item of a projection. -/
inductive SelectItem where
  | star
  | qualifiedStar (table : QualifiedName)
  | expr (value : Expr) (label : Option Name)

/-- A relation with the joins that follow it. -/
structure Source where
  relation : Relation
  joins : List Join

/-- A relation in a `FROM` clause. -/
inductive Relation where
  | table (name : QualifiedName) (label : Option TableAlias)
  | derived (query : Query) (label : Option TableAlias)
  /-- A table-valued function. -/
  | function (call : Call) (label : Option TableAlias)

/-- A join with the relation on its right. -/
structure Join where
  relation : Relation
  kind : JoinKind
  condition : JoinCondition

/-- The condition of a join. -/
inductive JoinCondition where
  | on (condition : Expr)
  | using (columns : List Name)
  | natural
  | none

end

/-- The query that is `body` alone. -/
def Query.ofBody (body : Body) : Query := ⟨none, body, [], none⟩

/-- A call of `name` with plain arguments. -/
def Expr.callOf (name : String) (args : List Expr) : Expr :=
  .call ⟨name, args.map .expr, false, none⟩

/-! ## Equivalent forms -/

/-- The operands of a chain of concatenations, left to right. Parentheses end a chain. -/
def Expr.concatOperands : Expr → List Expr
  | .binary left .concat right => left.concatOperands ++ right.concatOperands
  | other => [other]

/-- The conditional as a `CASE` expression. -/
def Expr.caseOfCond (condition yes no : Expr) : Expr :=
  .case none [⟨condition, yes⟩] (some no)

/-- The two sides of a comparison by pattern in any case, so that `LIKE` compares them. -/
def Expr.lowered (operand pattern : Expr) : Expr × Expr :=
  (.callOf "LOWER" [operand], .callOf "LOWER" [pattern])

end SqlDialects
