import SqlDialects.Json
import SqlDialects.Tree.Statement

/-!
# Trees as JSON

* `Statement.toJson`, `Expr.toJson`, `DataType.toJson` and so on: the JSON form of each node.

A node with alternatives is a tagged value, or its bare tag where it has no contents; every other
node is an object with all of its fields.
-/

namespace SqlDialects

namespace Json

/-- A number that may be missing. -/
def ofNat? : Option Nat → Json := ofOption .number

/-- A truth value that may be missing. -/
def ofBool? : Option Bool → Json := ofOption .bool

end Json

/-! ## Leaves -/

/-- The tag of a type's kind. -/
def TypeKind.tag : TypeKind → String
  | boolean => "Boolean"
  | tinyInt => "TinyInt"
  | smallInt => "SmallInt"
  | int => "Int"
  | bigInt => "BigInt"
  | real => "Real"
  | double => "Double"
  | decimal => "Decimal"
  | char => "Char"
  | varchar => "Varchar"
  | text => "Text"
  | binary => "Binary"
  | varbinary => "Varbinary"
  | date => "Date"
  | time => "Time"
  | timestamp => "Timestamp"
  | timestampTz => "TimestampTz"
  | json => "Json"
  | uuid => "Uuid"

/-- The JSON form of a type. -/
def DataType.toJson (t : DataType) : Json :=
  match t, t.kind? with
  | .custom spelling, _ => .tagged "Custom" (.string spelling)
  | .decimal precision scale, _ =>
    .tagged "Decimal" (.object [("precision", .ofNat? precision), ("scale", .ofNat? scale)])
  | .char n, _ => .tagged "Char" (.ofNat? n)
  | .varchar n, _ => .tagged "Varchar" (.ofNat? n)
  | .binary n, _ => .tagged "Binary" (.ofNat? n)
  | .varbinary n, _ => .tagged "Varbinary" (.ofNat? n)
  | _, some kind => .string kind.tag
  | _, none => .null

/-- The JSON form of a name. -/
def Name.toJson (n : Name) : Json :=
  .object [("value", .string n.text), ("quoted", .bool n.quoted)]

/-- The JSON form of a list of names. -/
def namesJson (ns : List Name) : Json := .ofList Name.toJson ns

/-- The tag of a kind of date or time. -/
def TemporalKind.tag : TemporalKind → String
  | date => "Date"
  | time => "Time"
  | timestamp => "Timestamp"

/-- The JSON form of a literal. -/
def Literal.toJson : Literal → Json
  | number digits => .tagged "Number" (.string digits)
  | string value => .tagged "String" (.string value)
  | boolean value => .tagged "Boolean" (.bool value)
  | null => .string "Null"
  | temporal kind value =>
    .tagged "Temporal" (.object [("kind", .string kind.tag), ("value", .string value)])

/-- The JSON form of a bind parameter. -/
def Param.toJson : Param → Json
  | positional n => .tagged "Positional" (.number n)
  | numbered n => .tagged "Numbered" (.number n)
  | named name => .tagged "Named" (.string name)

/-- The tag of a binary operator. -/
def BinaryOp.tag : BinaryOp → String
  | plus => "Plus"
  | minus => "Minus"
  | multiply => "Multiply"
  | divide => "Divide"
  | modulo => "Modulo"
  | concat => "Concat"
  | eq => "Eq"
  | notEq => "NotEq"
  | lt => "Lt"
  | ltEq => "LtEq"
  | gt => "Gt"
  | gtEq => "GtEq"
  | and => "And"
  | or => "Or"
  | bitAnd => "BitwiseAnd"
  | bitOr => "BitwiseOr"
  | bitXor => "BitwiseXor"
  | shiftLeft => "ShiftLeft"
  | shiftRight => "ShiftRight"
  | power => "Power"

/-- The tag of a unary operator. -/
def UnaryOp.tag : UnaryOp → String
  | not => "Not"
  | minus => "Minus"
  | plus => "Plus"
  | bitNot => "BitwiseNot"

/-- The tag of a field of a date. -/
def DateField.tag : DateField → String
  | year => "Year"
  | quarter => "Quarter"
  | month => "Month"
  | week => "Week"
  | day => "Day"
  | dayOfWeek => "DayOfWeek"
  | dayOfYear => "DayOfYear"
  | hour => "Hour"
  | minute => "Minute"
  | second => "Second"

/-- The tag of the unit of a window's frame. -/
def FrameUnit.tag : FrameUnit → String
  | rows => "Rows"
  | range => "Range"

/-- The tag of a set operation. -/
def SetOp.tag : SetOp → String
  | union => "Union"
  | intersect => "Intersect"
  | except => "Except"

/-- The tag of a set operation's quantifier. -/
def SetQuantifier.tag : SetQuantifier → String
  | none => "None"
  | all => "All"
  | distinct => "Distinct"

/-- The tag of a kind of join. -/
def JoinKind.tag : JoinKind → String
  | inner => "Inner"
  | left => "Left"
  | right => "Right"
  | full => "Full"
  | cross => "Cross"

/-- The JSON form of a table's alias. -/
def TableAlias.toJson (a : TableAlias) : Json :=
  .object [("name", a.name.toJson), ("columns", namesJson a.columns)]

/-- The JSON form of an alias that may be missing. -/
def aliasJson (a : Option TableAlias) : Json := .ofOption TableAlias.toJson a

/-! ## Expressions and queries -/

mutual

/-- The JSON form of an expression. -/
def Expr.toJson : Expr → Json
  | .name n => .tagged "Identifier" n.toJson
  | .path parts => .tagged "CompoundIdentifier" (namesJson parts)
  | .literal l => .tagged "Literal" l.toJson
  | .param p => .tagged "Parameter" p.toJson
  | .binary left op right =>
    .tagged "Binary"
      (.object [("left", left.toJson), ("op", .string op.tag), ("right", right.toJson)])
  | .unary op e => .tagged "Unary" (.object [("op", .string op.tag), ("expr", e.toJson)])
  | .call f => .tagged "Function" f.toJson
  | .cast e type safe =>
    .tagged "Cast"
      (.object [("expr", e.toJson), ("data_type", type.toJson), ("try_cast", .bool safe)])
  | .case operand branches otherwise =>
    .tagged "Case"
      (.object [("operand", exprJson? operand), ("conditions", .array (branchesJson branches)),
        ("else_result", exprJson? otherwise)])
  | .cond condition yes no =>
    .tagged "If"
      (.object [("condition", condition.toJson), ("then", yes.toJson), ("otherwise", no.toJson)])
  | .between e negated low high =>
    .tagged "Between"
      (.object [("expr", e.toJson), ("negated", .bool negated), ("low", low.toJson),
        ("high", high.toJson)])
  | .inList e items negated =>
    .tagged "InList"
      (.object [("expr", e.toJson), ("list", .array (exprsJson items)),
        ("negated", .bool negated)])
  | .inQuery e query negated =>
    .tagged "InSubquery"
      (.object [("expr", e.toJson), ("subquery", query.toJson), ("negated", .bool negated)])
  | .like e pattern negated anyCase escape =>
    .tagged "Like"
      (.object [("expr", e.toJson), ("pattern", pattern.toJson), ("negated", .bool negated),
        ("case_insensitive", .bool anyCase), ("escape", exprJson? escape)])
  | .isNull e negated =>
    .tagged "IsNull" (.object [("expr", e.toJson), ("negated", .bool negated)])
  | .exists query negated =>
    .tagged "Exists" (.object [("subquery", query.toJson), ("negated", .bool negated)])
  | .subquery query => .tagged "Subquery" query.toJson
  | .nested e => .tagged "Nested" e.toJson
  | .extract field e =>
    .tagged "Extract" (.object [("field", .string field.tag), ("expr", e.toJson)])
  | .interval amount unit =>
    .tagged "Interval"
      (.object [("value", amount.toJson),
        ("unit", .ofOption (fun u => .string (DateField.tag u)) unit)])
  | .now kind => .tagged "CurrentTime" (.string kind.tag)

/-- The JSON form of an expression that may be missing. -/
def exprJson? : Option Expr → Json
  | none => .null
  | some e => e.toJson

/-- The JSON form of expressions. -/
def exprsJson : List Expr → List Json
  | [] => []
  | e :: rest => e.toJson :: exprsJson rest

/-- The JSON form of the branches of a `CASE`. -/
def branchesJson : List Branch → List Json
  | [] => []
  | ⟨condition, result⟩ :: rest =>
    .object [("condition", condition.toJson), ("result", result.toJson)] :: branchesJson rest

/-- The JSON form of a function call. -/
def Call.toJson : Call → Json
  | ⟨name, args, distinct, window⟩ =>
    .object [("name", .string name), ("args", .array (argsJson args)),
      ("distinct", .bool distinct), ("over", windowJson? window)]

/-- The JSON form of arguments. -/
def argsJson : List Arg → List Json
  | [] => []
  | .star :: rest => .string "Wildcard" :: argsJson rest
  | .expr e :: rest => .tagged "Expr" e.toJson :: argsJson rest

/-- The JSON form of a window that may be missing. -/
def windowJson? : Option Window → Json
  | none => .null
  | some ⟨partitionBy, order, frame⟩ =>
    .object [("partition_by", .array (exprsJson partitionBy)),
      ("order_by", .array (ordersJson order)), ("frame", frameJson? frame)]

/-- The JSON form of a frame that may be missing. -/
def frameJson? : Option Frame → Json
  | none => .null
  | some ⟨unit, start, stop⟩ =>
    .object [("units", .string unit.tag), ("start", start.toJson), ("end", boundJson? stop)]

/-- The JSON form of a frame's bound that may be missing. -/
def boundJson? : Option Bound → Json
  | none => .null
  | some b => b.toJson

/-- The JSON form of a frame's bound. -/
def Bound.toJson : Bound → Json
  | .unboundedPreceding => .string "UnboundedPreceding"
  | .preceding e => .tagged "Preceding" e.toJson
  | .currentRow => .string "CurrentRow"
  | .following e => .tagged "Following" e.toJson
  | .unboundedFollowing => .string "UnboundedFollowing"

/-- The JSON form of an `ORDER BY` list. -/
def ordersJson : List OrderItem → List Json
  | [] => []
  | ⟨key, ascending, nullsFirst⟩ :: rest =>
    .object [("expr", key.toJson), ("asc", .ofBool? ascending),
      ("nulls_first", .ofBool? nullsFirst)] :: ordersJson rest

/-- The JSON form of a query. -/
def Query.toJson : Query → Json
  | ⟨ctes, body, order, limit⟩ =>
    .object [("with", withJson? ctes), ("body", body.toJson),
      ("order_by", .array (ordersJson order)), ("limit", limitJson? limit)]

/-- The JSON form of a `WITH` clause that may be missing. -/
def withJson? : Option With → Json
  | none => .null
  | some ⟨recursive, tables⟩ =>
    .object [("recursive", .bool recursive), ("ctes", .array (ctesJson tables))]

/-- The JSON form of common table expressions. -/
def ctesJson : List Cte → List Json
  | [] => []
  | ⟨name, columns, query⟩ :: rest =>
    .object [("alias", name.toJson), ("columns", namesJson columns), ("query", query.toJson)] ::
      ctesJson rest

/-- The JSON form of a row limit that may be missing. -/
def limitJson? : Option Limit → Json
  | none => .null
  | some ⟨count, offset⟩ =>
    .object [("count", exprJson? count), ("offset", exprJson? offset)]

/-- The JSON form of a query's body. -/
def Body.toJson : Body → Json
  | .select s => .tagged "Select" s.toJson
  | .combine op quantifier left right =>
    .tagged "SetOperation"
      (.object [("op", .string op.tag), ("quantifier", .string quantifier.tag),
        ("left", left.toJson), ("right", right.toJson)])
  | .query q => .tagged "Query" q.toJson
  | .values rows => .tagged "Values" (.object [("rows", .array (rowsJson rows))])

/-- The JSON form of the rows of `VALUES`. -/
def rowsJson : List (List Expr) → List Json
  | [] => []
  | row :: rest => .array (exprsJson row) :: rowsJson rest

/-- The JSON form of a `SELECT`. -/
def Select.toJson : Select → Json
  | ⟨distinct, items, sources, condition, groupBy, having, qualify⟩ =>
    .object [("distinct", distinctJson? distinct), ("projection", .array (itemsJson items)),
      ("from", .array (sourcesJson sources)), ("selection", exprJson? condition),
      ("group_by", .array (exprsJson groupBy)), ("having", exprJson? having),
      ("qualify", exprJson? qualify)]

/-- The JSON form of a `DISTINCT` that may be missing. -/
def distinctJson? : Option Distinct → Json
  | none => .null
  | some .all => .string "Distinct"
  | some (.on keys) => .tagged "On" (.array (exprsJson keys))

/-- The JSON form of the items of a `SELECT`. -/
def itemsJson : List SelectItem → List Json
  | [] => []
  | .star :: rest => .string "Wildcard" :: itemsJson rest
  | .qualifiedStar table :: rest => .tagged "QualifiedWildcard" (namesJson table) :: itemsJson rest
  | .expr e label :: rest =>
    .tagged "Expr" (.object [("expr", e.toJson), ("alias", .ofOption Name.toJson label)]) ::
      itemsJson rest

/-- The JSON form of the sources of a `FROM`. -/
def sourcesJson : List Source → List Json
  | [] => []
  | ⟨relation, joins⟩ :: rest =>
    .object [("relation", relation.toJson), ("joins", .array (joinsJson joins))] ::
      sourcesJson rest

/-- The JSON form of a relation. -/
def Relation.toJson : Relation → Json
  | .table name label =>
    .tagged "Table" (.object [("name", namesJson name), ("alias", aliasJson label)])
  | .derived query label =>
    .tagged "Derived" (.object [("subquery", query.toJson), ("alias", aliasJson label)])
  | .function call label =>
    .tagged "Function" (.object [("function", call.toJson), ("alias", aliasJson label)])

/-- The JSON form of joins. -/
def joinsJson : List Join → List Json
  | [] => []
  | ⟨relation, kind, condition⟩ :: rest =>
    .object [("relation", relation.toJson), ("kind", .string kind.tag),
      ("constraint", condition.toJson)] :: joinsJson rest

/-- The JSON form of a join's condition. -/
def JoinCondition.toJson : JoinCondition → Json
  | .on e => .tagged "On" e.toJson
  | .using columns => .tagged "Using" (namesJson columns)
  | .natural => .string "Natural"
  | .none => .string "None"

end

/-! ## Statements -/

/-- The JSON form of an `INSERT`. -/
def Insert.toJson (i : Insert) : Json :=
  .object [("table", namesJson i.table), ("columns", namesJson i.columns),
    ("source", i.source.toJson), ("returning", .array (itemsJson i.returning))]

/-- The JSON form of an assignment. -/
def Assignment.toJson (a : Assignment) : Json :=
  .object [("target", namesJson a.target), ("value", a.value.toJson)]

/-- The JSON form of an `UPDATE`. -/
def Update.toJson (u : Update) : Json :=
  .object [("table", namesJson u.table), ("alias", .ofOption Name.toJson u.label),
    ("assignments", .ofList Assignment.toJson u.assignments),
    ("selection", exprJson? u.condition), ("returning", .array (itemsJson u.returning))]

/-- The JSON form of a `DELETE`. -/
def Delete.toJson (d : Delete) : Json :=
  .object [("table", namesJson d.table), ("selection", exprJson? d.condition),
    ("returning", .array (itemsJson d.returning))]

/-- The JSON form of a column's option. -/
def ColumnOption.toJson : ColumnOption → Json
  | notNull => .string "NotNull"
  | null => .string "Null"
  | primaryKey => .string "PrimaryKey"
  | unique => .string "Unique"
  | default value => .tagged "Default" value.toJson
  | autoIncrement => .string "AutoIncrement"

/-- The JSON form of a column's definition. -/
def Column.toJson (c : Column) : Json :=
  .object [("name", c.name.toJson), ("data_type", c.type.toJson),
    ("options", .ofList ColumnOption.toJson c.options)]

/-- The JSON form of a table's constraint. -/
def TableConstraint.toJson : TableConstraint → Json
  | primaryKey columns => .tagged "PrimaryKey" (namesJson columns)
  | unique columns => .tagged "Unique" (namesJson columns)

/-- The JSON form of a `CREATE TABLE`. -/
def CreateTable.toJson (c : CreateTable) : Json :=
  .object [("name", namesJson c.name), ("temporary", .bool c.temporary),
    ("if_not_exists", .bool c.ifNotExists), ("columns", .ofList Column.toJson c.columns),
    ("constraints", .ofList TableConstraint.toJson c.constraints),
    ("query", .ofOption Query.toJson c.query)]

/-- The JSON form of a `CREATE VIEW`. -/
def CreateView.toJson (c : CreateView) : Json :=
  .object [("name", namesJson c.name), ("or_replace", .bool c.orReplace),
    ("columns", namesJson c.columns), ("query", c.query.toJson)]

/-- The tag of a kind of schema object. -/
def SchemaObject.tag : SchemaObject → String
  | table => "Table"
  | view => "View"

/-- The JSON form of a `DROP`. -/
def Drop.toJson (d : Drop) : Json :=
  .object [("object", .string d.object.tag), ("if_exists", .bool d.ifExists),
    ("names", .ofList namesJson d.names), ("cascade", .bool d.cascade)]

/-- The JSON form of a statement. -/
def Statement.toJson : Statement → Json
  | query q => .tagged "Query" q.toJson
  | insert i => .tagged "Insert" i.toJson
  | update u => .tagged "Update" u.toJson
  | delete d => .tagged "Delete" d.toJson
  | createTable c => .tagged "CreateTable" c.toJson
  | createView c => .tagged "CreateView" c.toJson
  | drop d => .tagged "Drop" d.toJson

end SqlDialects
