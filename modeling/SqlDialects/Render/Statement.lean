import SqlDialects.Render.Expr
import SqlDialects.Tree.Statement

/-!
# Writing statements

* `Statement.text` : the text of a statement;
* `render` : the text of a statement in a dialect and a layout.
-/

namespace SqlDialects

open Render

/-- The condition of a statement, as a list of at most one clause. -/
def conditionTexts (condition : Option Expr) : Render (List String) := do
  return (← optionTexts condition).map fun text => s!"WHERE {text}"

/-- The rows that a statement returns, or nothing. -/
def returningText (items : List SelectItem) : Render String := do
  if items.isEmpty then return ""
  require .returning
  let items ← itemTexts items
  return (← target).listClause "RETURNING" items

/-- The text of an insertion. -/
def Insert.text (i : Insert) : Render String := do
  let t ← target
  let source ← i.source.text
  let returning ← returningText i.returning
  return t.clauses [s!"INSERT INTO {t.path i.table}{t.columns i.columns}", source, returning]

/-- The texts of assignments. -/
def assignmentTexts : List Assignment → Render (List String)
  | [] => return []
  | a :: rest => do
    let value ← a.value.text
    let path := (← target).path a.target
    return s!"{path} = {value}" :: (← assignmentTexts rest)

/-- The text of an update. -/
def Update.text (u : Update) : Render String := do
  let t ← target
  let label := (u.label.map fun a => t.aliasWord ++ t.name a).getD ""
  let assignments ← assignmentTexts u.assignments
  let condition ← conditionTexts u.condition
  let returning ← returningText u.returning
  return t.clauses
    (s!"UPDATE {t.path u.table}{label}" :: t.listClause "SET" assignments :: condition ++
      [returning])

/-- The text of a deletion. -/
def Delete.text (d : Delete) : Render String := do
  let t ← target
  let condition ← conditionTexts d.condition
  let returning ← returningText d.returning
  return t.clauses (s!"DELETE FROM {t.path d.table}" :: condition ++ [returning])

/-- The text of an option of a column. -/
def ColumnOption.text : ColumnOption → Render String
  | .notNull => return "NOT NULL"
  | .null => return "NULL"
  | .primaryKey => return "PRIMARY KEY"
  | .unique => return "UNIQUE"
  | .default value => do
    let value ← operand value .comparison true value.texts
    return s!"DEFAULT {value}"
  | .autoIncrement => do
    match (← target).dialect.autoIncrement with
    | some .autoIncrement => return "AUTO_INCREMENT"
    | some .autoincrement => return "AUTOINCREMENT"
    | some .identity => return "IDENTITY(1,1)"
    | some .generatedIdentity => return "GENERATED BY DEFAULT AS IDENTITY"
    | none => unsupported Construct.autoIncrement.describe

/-- The texts of the options of a column, each behind a blank. -/
def optionsText : List ColumnOption → Render String
  | [] => return ""
  | option :: rest => do
    let option ← option.text
    let rest ← optionsText rest
    return s!" {option}{rest}"

/-- The texts of columns. -/
def columnTexts : List Column → Render (List String)
  | [] => return []
  | c :: rest => do
    let t ← target
    let options ← optionsText c.options
    return s!"{t.name c.name} {t.dataType c.type}{options}" :: (← columnTexts rest)

/-- The text of a constraint of a table. -/
def Target.constraint (t : Target) : TableConstraint → String
  | .primaryKey columns => s!"PRIMARY KEY ({t.names columns})"
  | .unique columns => s!"UNIQUE ({t.names columns})"

/-- A statement's head and the query behind `AS`. -/
def asQuery (head : String) (query : Query) : Render String := do
  let query ← query.text
  return (← target).clauses [head, s!"AS {query}"]

/-- The text of a new table. -/
def CreateTable.text (c : CreateTable) : Render String := do
  let t ← target
  if c.ifNotExists then require .ifNotExists
  let temporary := if c.temporary then "TEMPORARY " else ""
  let guard := if c.ifNotExists then "IF NOT EXISTS " else ""
  let columns ← columnTexts c.columns
  let elements := columns ++ c.constraints.map t.constraint
  let elements :=
    if elements.isEmpty then "" else " " ++ t.block (String.intercalate t.comma elements)
  let head := s!"CREATE {temporary}TABLE {guard}{t.path c.name}{elements}"
  match c.query with
  | some query => asQuery head query
  | none => return head

/-- The text of a new view. -/
def CreateView.text (c : CreateView) : Render String := do
  let t ← target
  let replace := if c.orReplace then s!"OR {t.dialect.writing.orReplace} " else ""
  asQuery s!"CREATE {replace}VIEW {t.path c.name}{t.columns c.columns}" c.query

/-- The text of a removal. -/
def Drop.text (d : Drop) : Render String := do
  let t ← target
  if d.ifExists then require .ifExists
  if d.cascade then require .dropCascade
  let guard := if d.ifExists then "IF EXISTS " else ""
  let names := String.intercalate ", " (d.names.map t.path)
  let cascade := if d.cascade then " CASCADE" else ""
  return s!"DROP {d.object.keyword} {guard}{names}{cascade}"

/-- The text of a statement. -/
def Statement.text : Statement → Render String
  | .query q => q.text
  | .insert i => i.text
  | .update u => u.text
  | .delete d => d.text
  | .createTable c => c.text
  | .createView c => c.text
  | .drop d => d.text

/-- The text of a statement in a dialect and a layout. -/
def render (d : Dialect) (layout : Layout) (s : Statement) : Except Fault String :=
  s.text.run { dialect := d, layout }

/-- The text of an expression in a dialect and a layout. -/
def renderExpr (d : Dialect) (layout : Layout) (e : Expr) : Except Fault String :=
  e.text.run { dialect := d, layout }

end SqlDialects
