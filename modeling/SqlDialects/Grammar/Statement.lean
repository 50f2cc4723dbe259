import SqlDialects.Grammar.Query
import SqlDialects.Token.Lexer
import SqlDialects.Tree.Statement

/-!
# Reading statements

* `Parser.statement` : one statement;
* `Parser.statements` : statements with semicolons between them;
* `parse` : the statements of a text.
-/

namespace SqlDialects

namespace Parser

/-! ## Changes of data -/

/-- `RETURNING` and its items, if they are next. -/
def returning : Parser (List SelectItem) :=
  optionalList (do onlyIf (← supports .returning) (eatWord "RETURNING"))
    (commaSeparated (selectItem outermost))

/-- `INSERT`. -/
def insert : Parser Insert := do
  expectWord "INSERT"
  expectWord "INTO"
  let table ← qualifiedName
  let listed := (← peekSymbol "(") && !(← peekNth 1).isWord "SELECT"
  let columns ← if listed then nameList else pure []
  let source ← query
  let returning ← returning
  return ⟨table, columns, source, returning⟩

/-- `target = value` of an update. -/
def assignment : Parser Assignment := do
  let first ← name
  let rest ← many (optional (eatSymbol ".") name)
  expectSymbol "="
  let value ← expr
  return ⟨first :: rest, value⟩

/-- `UPDATE`. -/
def update : Parser Update := do
  expectWord "UPDATE"
  let table ← qualifiedName
  let label ← optionalAlias
  expectWord "SET"
  let assignments ← commaSeparated assignment
  let condition ← optional (eatWord "WHERE") expr
  let returning ← returning
  return ⟨table, label, assignments, condition, returning⟩

/-- `DELETE`. -/
def delete : Parser Delete := do
  expectWord "DELETE"
  expectWord "FROM"
  let table ← qualifiedName
  let condition ← optional (eatWord "WHERE") expr
  let returning ← returning
  return ⟨table, condition, returning⟩

/-! ## Changes of the schema -/

/-- The rest of `CREATE VIEW`. -/
def createView (orReplace : Bool) : Parser CreateView := do
  let view ← qualifiedName
  let columns ← optionalNameList
  expectWord "AS"
  let query ← query
  return ⟨view, orReplace, columns, query⟩

/-- Any spelling of generated values, if one is next. The arguments of `IDENTITY` have no
meaning here. -/
def autoIncrement : Parser Bool := do
  if ← eatWord "AUTO_INCREMENT" then return true
  if ← eatWord "AUTOINCREMENT" then return true
  if ← eatWord "IDENTITY" then
    if ← eatSymbol "(" then
      let _ ← commaSeparated (operandFrom outermost)
      expectSymbol ")"
    return true
  if ← eatWord "GENERATED" then
    unless ← eatWord "ALWAYS" do
      expectWord "BY"
      expectWord "DEFAULT"
    expectWord "AS"
    expectWord "IDENTITY"
    return true
  return false

/-- An option of a column, if one is next. -/
def columnOption : Parser (Option ColumnOption) := do
  if ← eatWords ["NOT", "NULL"] then return some .notNull
  if ← eatWord "NULL" then return some .null
  if ← eatWords ["PRIMARY", "KEY"] then return some .primaryKey
  if ← eatWord "UNIQUE" then return some .unique
  if ← eatWord "DEFAULT" then
    let value ← outermost.expr .comparison
    return some (.default value)
  if ← onlyIf (← dialect).autoIncrement.isSome autoIncrement then return some .autoIncrement
  return none

/-- A column of a new table. -/
def column : Parser Column := do
  let column ← name
  let type ← dataType
  let options ← many columnOption
  return ⟨column, type, options⟩

/-- A constraint of a new table, if one is next. -/
def tableConstraint : Parser (Option TableConstraint) := do
  if ← eatWords ["PRIMARY", "KEY"] then return some (.primaryKey (← nameList))
  if ← eatWord "UNIQUE" then return some (.unique (← nameList))
  return none

/-- A constraint or a column of a new table. -/
def tableElement : Parser (TableConstraint ⊕ Column) := do
  match ← tableConstraint with
  | some constraint => return .inl constraint
  | none => return .inr (← column)

/-- The rest of `CREATE TABLE`. -/
def createTable (temporary : Bool) : Parser CreateTable := do
  let ifNotExists ← onlyIf (← supports .ifNotExists) (eatWords ["IF", "NOT", "EXISTS"])
  let table ← qualifiedName
  let elements ← optionalList (eatSymbol "(") (do
    let elements ← commaSeparated tableElement
    expectSymbol ")"
    return elements)
  let source ← optional (eatWord "AS") query
  if source.isNone && elements.isEmpty then unexpected
  let constraints := elements.filterMap Sum.getLeft?
  let columns := elements.filterMap Sum.getRight?
  return ⟨table, temporary, ifNotExists, columns, constraints, source⟩

/-- `CREATE`. -/
def create : Parser Statement := do
  expectWord "CREATE"
  if ← eatWord "OR" then
    expectWord (← dialect).writing.orReplace
    expectWord "VIEW"
    return .createView (← createView true)
  let temporary ← do
    if ← eatWord "TEMPORARY" then pure true else eatWord "TEMP"
  if ← onlyIf (!temporary) (eatWord "VIEW") then
    return .createView (← createView false)
  expectWord "TABLE"
  return .createTable (← createTable temporary)

/-- `DROP`. -/
def drop : Parser Drop := do
  expectWord "DROP"
  let object ←
    if ← eatWord "TABLE" then pure .table
    else do
      expectWord "VIEW"
      pure .view
  let ifExists ← onlyIf (← supports .ifExists) (eatWords ["IF", "EXISTS"])
  let names ← commaSeparated qualifiedName
  let cascade ← onlyIf (← supports .dropCascade) (eatWord "CASCADE")
  return ⟨object, ifExists, names, cascade⟩

/-! ## Statements -/

/-- Whether a query is next. -/
def checkQuery : Parser Bool := do
  if ← checkWord "SELECT" then return true
  if ← checkWord "WITH" then return true
  if ← checkWord "VALUES" then return true
  checkSymbol "("

/-- A statement. -/
def statement : Parser Statement := do
  if ← checkQuery then return .query (← query)
  if ← checkWord "INSERT" then return .insert (← insert)
  if ← checkWord "UPDATE" then return .update (← update)
  if ← checkWord "DELETE" then return .delete (← delete)
  if ← checkWord "CREATE" then return ← create
  if ← checkWord "DROP" then return .drop (← drop)
  unexpected

/-- A semicolon, if one is next. -/
def semicolon : Parser (Option Unit) := do
  if ← eatSymbol ";" then return some ()
  return none

/-- Counts bare parameters from one again. -/
def resetBinds : Parser Unit where
  run _ c := (.ok (), { c with binds := 0 })
  leads _ _ := ⟨rfl, List.suffix_rfl⟩

/-- The next statement behind any number of semicolons. It ends at a semicolon or with the text. -/
def nextStatement : Parser (Option Statement) := do
  let _ ← many semicolon
  if ← atEnd then return none
  resetBinds
  let s ← statement
  unless ← atEnd do
    unless ← checkSymbol ";" do unexpected
  return some s

/-- All statements up to the end. -/
def statements : Parser (List Statement) := many nextStatement

/-- The result of a parser at the beginning of an input. -/
def runFrom {α : Type} (p : Parser α) (i : Input) : Except Fault α := (p i {}).1

end Parser

/-- The statements of a text. Either all of them are read or none. -/
def parse (d : Dialect) (sql : String) : Except Fault (List Statement) :=
  match tokenize d.lexical sql with
  | .error f => .error f
  | .ok (tokens, finish) => Parser.statements.runFrom (.ofTokens d tokens finish)

end SqlDialects
