import SqlDialects.Tree.Expr

/-!
# Statements

* `Statement` : a query, a change of data, or a change of the schema;
* `Statement.kind` : its name in messages.
-/

namespace SqlDialects

/-- `INSERT INTO`; the rows come from a query. -/
structure Insert where
  table : QualifiedName
  columns : List Name
  source : Query
  returning : List SelectItem

/-- One assignment of an update. -/
structure Assignment where
  target : List Name
  value : Expr

/-- `UPDATE`. -/
structure Update where
  table : QualifiedName
  label : Option Name
  assignments : List Assignment
  condition : Option Expr
  returning : List SelectItem

/-- `DELETE FROM`. -/
structure Delete where
  table : QualifiedName
  condition : Option Expr
  returning : List SelectItem

/-- An option of a column. -/
inductive ColumnOption where
  | notNull
  | null
  | primaryKey
  | unique
  | default (value : Expr)
  /-- Values are generated, whatever spelling says so. -/
  | autoIncrement

/-- A column of a new table. -/
structure Column where
  name : Name
  type : DataType
  options : List ColumnOption

/-- A constraint of a new table. -/
inductive TableConstraint where
  | primaryKey (columns : List Name)
  | unique (columns : List Name)
deriving DecidableEq, Repr

/-- `CREATE TABLE`, with columns, a query, or both. -/
structure CreateTable where
  name : QualifiedName
  temporary : Bool
  ifNotExists : Bool
  columns : List Column
  constraints : List TableConstraint
  query : Option Query

/-- `CREATE VIEW`. -/
structure CreateView where
  name : QualifiedName
  orReplace : Bool
  columns : List Name
  query : Query

/-- What a `DROP` statement removes. -/
inductive SchemaObject where
  | table
  | view
deriving DecidableEq, Repr

/-- The word for a kind of schema object. -/
def SchemaObject.keyword : SchemaObject → String
  | table => "TABLE"
  | view => "VIEW"

/-- `DROP`. -/
structure Drop where
  object : SchemaObject
  ifExists : Bool
  names : List QualifiedName
  cascade : Bool
deriving DecidableEq, Repr

/-- A statement. -/
inductive Statement where
  | query (q : Query)
  | insert (i : Insert)
  | update (u : Update)
  | delete (d : Delete)
  | createTable (c : CreateTable)
  | createView (c : CreateView)
  | drop (d : Drop)

/-- The name of a statement's kind. -/
def Statement.kind : Statement → String
  | query _ => "SELECT"
  | insert _ => "INSERT"
  | update _ => "UPDATE"
  | delete _ => "DELETE"
  | createTable _ => "CREATE TABLE"
  | createView _ => "CREATE VIEW"
  | drop _ => "DROP"

end SqlDialects
