import SqlDialects.Dialect.Basic
import SqlDialects.Tree.Statement

/-!
# Trees as a dialect spells them

* `Respelling` : which nodes a dialect spells by other nodes, and what becomes of names;
* `Dialect.respelling` : what the dialect does;
* `Respelling.plain` : no node is spelled by another, so that only parentheses are removed;
* `Expr.respell`, `Query.respell`, `Statement.respell` : the tree as it is spelled, without the nodes
  that stand for parentheses.
-/

namespace SqlDialects

/-- How nodes are spelled by other nodes. -/
structure Respelling where
  concat : ConcatStyle := .operator
  /-- Whether a power has a symbol; otherwise it is a call. -/
  power : Bool := true
  /-- Whether a remainder has a symbol; otherwise it is a call. -/
  modulo : Bool := true
  /-- Whether a conditional has a function; otherwise it is a `CASE` expression. -/
  conditional : Bool := true
  /-- Whether patterns are compared in any case; otherwise the lower-case forms are compared. -/
  anyCase : Bool := true
  booleans : BooleanStyle := .keyword
  /-- What becomes of names. -/
  name : Name → Name

namespace Respelling

/-- Only parentheses are removed and names are changed. -/
def plain (f : Name → Name) : Respelling := { name := f }

/-- The operands of a chain of concatenations that has become one call, or one expression. -/
def chainArgs (original result : Expr) : List Arg :=
  match original, result with
  | .binary _ .concat _, .call f => f.args
  | _, e => [.expr e]

/-- A binary operator between operands of which `left'` and `right'` are the new ones. -/
def binary (r : Respelling) (left : Expr) (op : BinaryOp) (right left' right' : Expr) : Expr :=
  match op with
  | .concat =>
    match r.concat with
    | .operator => .binary left' .concat right'
    | .plus => .binary left' .plus right'
    | .function => .call ⟨"CONCAT", chainArgs left left' ++ chainArgs right right', false, none⟩
  | .power => if r.power then .binary left' .power right' else .callOf "POWER" [left', right']
  | .modulo => if r.modulo then .binary left' .modulo right' else .callOf "MOD" [left', right']
  | other => .binary left' other right'

/-- A comparison by pattern. -/
def like (r : Respelling) (operand pattern : Expr) (negated anyCase : Bool)
    (escape : Option Expr) : Expr :=
  if anyCase && !r.anyCase then
    .like (.callOf "LOWER" [operand]) (.callOf "LOWER" [pattern]) negated false escape
  else .like operand pattern negated anyCase escape

/-- A conditional. -/
def cond (r : Respelling) (condition yes no : Expr) : Expr :=
  if r.conditional then .cond condition yes no else .caseOfCond condition yes no

/-- A constant. -/
def literal (r : Respelling) (l : Literal) : Literal :=
  match l with
  | .boolean b =>
    match r.booleans with
    | .keyword => .boolean b
    | .integer => .number (if b then "1" else "0")
  | other => other

/-- The alias of a source. -/
def tableAlias (r : Respelling) (a : TableAlias) : TableAlias :=
  ⟨r.name a.name, a.columns.map r.name⟩

end Respelling

/-- What a dialect spells by other nodes, with names changed by `f`. -/
def Dialect.respelling (d : Dialect) (f : Name → Name) : Respelling where
  concat := d.writing.concat
  power := (d.reading.spelling? .power).isSome
  modulo := (d.reading.spelling? .modulo).isSome
  conditional := d.writing.ifFunction.isSome
  anyCase := d.reading.ilike
  booleans := d.writing.booleans
  name := f

section Trees

variable (r : Respelling)

mutual

/-- An expression as it is spelled, without parentheses of its own. -/
def Expr.respell : Expr → Expr
  | .name n => .name (r.name n)
  | .path parts => .path (parts.map r.name)
  | .literal l => .literal (r.literal l)
  | .param p => .param p
  | .binary left op right => r.binary left op right left.respell right.respell
  | .unary op e => .unary op e.respell
  | .call f => .call f.respell
  | .cast e type safe => .cast e.respell type safe
  | .case operand branches otherwise =>
    .case (respellOption operand) (respellBranches branches) (respellOption otherwise)
  | .cond c y n => r.cond c.respell y.respell n.respell
  | .between e negated low high => .between e.respell negated low.respell high.respell
  | .inList e items negated => .inList e.respell (respellAll items) negated
  | .inQuery e q negated => .inQuery e.respell q.respell negated
  | .like e p negated anyCase escape =>
    r.like e.respell p.respell negated anyCase (respellOption escape)
  | .isNull e negated => .isNull e.respell negated
  | .exists q negated => .exists q.respell negated
  | .subquery q => .subquery q.respell
  | .nested e => e.respell
  | .extract field e => .extract field e.respell
  | .interval e unit => .interval e.respell unit
  | .now kind => .now kind

/-- An expression that may be missing. -/
def respellOption : Option Expr → Option Expr
  | none => none
  | some e => some e.respell

/-- Expressions. -/
def respellAll : List Expr → List Expr
  | [] => []
  | e :: es => e.respell :: respellAll es

/-- Branches. -/
def respellBranches : List Branch → List Branch
  | [] => []
  | ⟨condition, result⟩ :: rest => ⟨condition.respell, result.respell⟩ :: respellBranches rest

/-- A call. -/
def Call.respell : Call → Call
  | ⟨name, args, distinct, window⟩ => ⟨name, respellArgs args, distinct, respellWindow window⟩

/-- Arguments. -/
def respellArgs : List Arg → List Arg
  | [] => []
  | .star :: rest => .star :: respellArgs rest
  | .expr e :: rest => .expr e.respell :: respellArgs rest

/-- A window that may be missing. -/
def respellWindow : Option Window → Option Window
  | none => none
  | some ⟨partitionBy, order, frame⟩ =>
    some ⟨respellAll partitionBy, respellOrder order, respellFrame frame⟩

/-- The keys of an ordering. -/
def respellOrder : List OrderItem → List OrderItem
  | [] => []
  | ⟨key, ascending, nullsFirst⟩ :: rest =>
    ⟨key.respell, ascending, nullsFirst⟩ :: respellOrder rest

/-- A window frame that may be missing. -/
def respellFrame : Option Frame → Option Frame
  | none => none
  | some ⟨unit, start, stop⟩ => some ⟨unit, start.respell, respellStop stop⟩

/-- The second end of a window frame. -/
def respellStop : Option Bound → Option Bound
  | none => none
  | some b => some b.respell

/-- An end of a window frame. -/
def Bound.respell : Bound → Bound
  | .unboundedPreceding => .unboundedPreceding
  | .preceding e => .preceding e.respell
  | .currentRow => .currentRow
  | .following e => .following e.respell
  | .unboundedFollowing => .unboundedFollowing

/-- A query. -/
def Query.respell : Query → Query
  | ⟨ctes, body, order, limit⟩ =>
    ⟨respellWith ctes, body.respell, respellOrder order, respellLimit limit⟩

/-- The common table expressions of a query. -/
def respellWith : Option With → Option With
  | none => none
  | some ⟨recursive, tables⟩ => some ⟨recursive, respellCtes tables⟩

/-- Common table expressions. -/
def respellCtes : List Cte → List Cte
  | [] => []
  | ⟨name, columns, query⟩ :: rest =>
    ⟨r.name name, columns.map r.name, query.respell⟩ :: respellCtes rest

/-- A row limit. -/
def respellLimit : Option Limit → Option Limit
  | none => none
  | some ⟨count, offset⟩ => some ⟨respellOption count, respellOption offset⟩

/-- The body of a query. -/
def Body.respell : Body → Body
  | .select s => .select s.respell
  | .combine op quantifier left right => .combine op quantifier left.respell right.respell
  | .query q => .query q.respell
  | .values rows => .values (respellRows rows)

/-- Rows of values. -/
def respellRows : List (List Expr) → List (List Expr)
  | [] => []
  | row :: rest => respellAll row :: respellRows rest

/-- A `SELECT` block. -/
def Select.respell : Select → Select
  | ⟨distinct, items, sources, condition, groupBy, having, qualify⟩ =>
    ⟨respellDistinct distinct, respellItems items, respellSources sources,
      respellOption condition, respellAll groupBy, respellOption having, respellOption qualify⟩

/-- How duplicates are removed. -/
def respellDistinct : Option Distinct → Option Distinct
  | none => none
  | some .all => some .all
  | some (.on keys) => some (.on (respellAll keys))

/-- The items of a projection. -/
def respellItems : List SelectItem → List SelectItem
  | [] => []
  | .star :: rest => .star :: respellItems rest
  | .qualifiedStar table :: rest => .qualifiedStar (table.map r.name) :: respellItems rest
  | .expr e label :: rest => .expr e.respell (label.map r.name) :: respellItems rest

/-- Sources. -/
def respellSources : List Source → List Source
  | [] => []
  | ⟨relation, joins⟩ :: rest => ⟨relation.respell, respellJoins joins⟩ :: respellSources rest

/-- A relation. -/
def Relation.respell : Relation → Relation
  | .table name label => .table (name.map r.name) (label.map r.tableAlias)
  | .derived q label => .derived q.respell (label.map r.tableAlias)
  | .function f label => .function f.respell (label.map r.tableAlias)

/-- Joins. -/
def respellJoins : List Join → List Join
  | [] => []
  | ⟨relation, kind, condition⟩ :: rest =>
    ⟨relation.respell, kind, condition.respell⟩ :: respellJoins rest

/-- The condition of a join. -/
def JoinCondition.respell : JoinCondition → JoinCondition
  | .on e => .on e.respell
  | .using columns => .using (columns.map r.name)
  | .natural => .natural
  | .none => .none

end

/-! ## Statements -/

/-- An option of a column. -/
def ColumnOption.respell : ColumnOption → ColumnOption
  | .default value => .default (value.respell r)
  | other => other

/-- A column of a new table. -/
def Column.respell (c : Column) : Column :=
  ⟨r.name c.name, c.type, c.options.map (·.respell r)⟩

/-- A constraint of a new table. -/
def TableConstraint.respell : TableConstraint → TableConstraint
  | .primaryKey columns => .primaryKey (columns.map r.name)
  | .unique columns => .unique (columns.map r.name)

/-- A statement. -/
def Statement.respell : Statement → Statement
  | .query q => .query (q.respell r)
  | .insert i =>
    .insert ⟨i.table.map r.name, i.columns.map r.name, i.source.respell r,
      respellItems r i.returning⟩
  | .update u =>
    .update ⟨u.table.map r.name, u.label.map r.name,
      u.assignments.map fun a => ⟨a.target.map r.name, a.value.respell r⟩,
      respellOption r u.condition, respellItems r u.returning⟩
  | .delete d => .delete ⟨d.table.map r.name, respellOption r d.condition, respellItems r d.returning⟩
  | .createTable c =>
    .createTable ⟨c.name.map r.name, c.temporary, c.ifNotExists, c.columns.map (·.respell r),
      c.constraints.map (·.respell r), c.query.map (·.respell r)⟩
  | .createView c =>
    .createView ⟨c.name.map r.name, c.orReplace, c.columns.map r.name, c.query.respell r⟩
  | .drop d => .drop { d with names := d.names.map (·.map r.name) }

end Trees

end SqlDialects
