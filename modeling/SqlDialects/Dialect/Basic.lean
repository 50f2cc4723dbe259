import SqlDialects.Table
import SqlDialects.Token.Rules
import SqlDialects.Tree.Scalar

/-!
# Dialects

* `Precedence` : how tightly operators bind;
* `Construct` : what some dialects cannot say;
* `ReadingRules`, `WritingRules` : what a dialect fixes about reading and about writing;
* `Dialect` : a dialect as data. No dialect has code of its own.
-/

namespace SqlDialects

/-! ## Precedence

The levels are those of the standard's operators, with gaps. An operator of a higher level binds
tighter; `atom` is above all, for what never needs parentheses. -/

/-- How tightly an operator binds. -/
abbrev Precedence := Nat

namespace Precedence

def or : Precedence := 5
def and : Precedence := 10
def not : Precedence := 15
def comparison : Precedence := 20
def bitOr : Precedence := 22
def bitXor : Precedence := 23
def bitAnd : Precedence := 24
def shift : Precedence := 25
def concat : Precedence := 27
def additive : Precedence := 30
def multiplicative : Precedence := 40
def power : Precedence := 50
def unary : Precedence := 55
def cast : Precedence := 60
def atom : Precedence := 100

end Precedence

/-! ## Constructs -/

/-- A construct that some dialects cannot say. -/
inductive Construct where
  | qualify
  | distinctOn
  | returning
  | fullOuterJoin
  | naturalJoin
  | joinUsing
  | nullsOrdering
  | tryCast
  | offset
  | ifNotExists
  | ifExists
  | dropCascade
  | autoIncrement
deriving DecidableEq, Repr

namespace Construct

/-- Every construct once. -/
def all : List Construct :=
  [qualify, distinctOn, returning, fullOuterJoin, naturalJoin, joinUsing, nullsOrdering, tryCast,
    offset, ifNotExists, ifExists, dropCascade, autoIncrement]

theorem mem_all (c : Construct) : c ∈ all := by cases c <;> decide

/-- The name of a construct as a key: its words in lower case, joined by hyphens. -/
def key : Construct → String
  | qualify => "qualify"
  | distinctOn => "distinct-on"
  | returning => "returning"
  | fullOuterJoin => "full-outer-join"
  | naturalJoin => "natural-join"
  | joinUsing => "join-using"
  | nullsOrdering => "nulls-ordering"
  | tryCast => "try-cast"
  | offset => "offset"
  | ifNotExists => "if-not-exists"
  | ifExists => "if-exists"
  | dropCascade => "drop-cascade"
  | autoIncrement => "auto-increment"

/-- How a construct is named in messages. -/
def describe : Construct → String
  | qualify => "QUALIFY"
  | distinctOn => "DISTINCT ON"
  | returning => "RETURNING"
  | fullOuterJoin => "FULL OUTER JOIN"
  | naturalJoin => "NATURAL JOIN"
  | joinUsing => "JOIN ... USING"
  | nullsOrdering => "NULLS FIRST/LAST"
  | tryCast => "TRY_CAST"
  | offset => "OFFSET"
  | ifNotExists => "IF NOT EXISTS"
  | ifExists => "IF EXISTS"
  | dropCascade => "DROP ... CASCADE"
  | autoIncrement => "auto-increment column"

end Construct

/-! ## Styles -/

/-- What a function name means when read. -/
inductive FunctionAlias where
  /-- Another name for a function. -/
  | rename (canonical : String)
  /-- Another name for a function, with its first two arguments exchanged. -/
  | swap (canonical : String)
deriving DecidableEq, Repr

/-- How a function is written. -/
inductive FunctionSpelling where
  | rename (name : String)
  /-- Under this name, with the first two arguments exchanged. -/
  | swap (name : String)
  /-- As `POSITION(needle IN haystack)`. -/
  | position
deriving DecidableEq, Repr

/-- What becomes of a call of a function that nobody knows. -/
inductive UnknownFunctions where
  | accept
  | reject
deriving DecidableEq, Repr

/-- How a dialect limits rows. -/
inductive LimitStyle where
  /-- `LIMIT c OFFSET o` -/
  | limitOffset
  /-- `OFFSET o LIMIT c` -/
  | offsetLimit
  /-- `TOP c`; with `fetch` also `OFFSET o ROWS FETCH NEXT c ROWS ONLY` -/
  | top (fetch : Bool)
  /-- `OFFSET o ROWS FETCH FIRST c ROWS ONLY` -/
  | fetchFirst
  /-- `LIMIT c` -/
  | limitOnly
deriving DecidableEq, Repr

/-- How truth values are written. -/
inductive BooleanStyle where
  | keyword
  | integer
deriving DecidableEq, Repr

/-- How strings are concatenated. -/
inductive ConcatStyle where
  | operator
  /-- By one call of `CONCAT`. -/
  | function
  /-- By `+`. -/
  | plus
deriving DecidableEq, Repr

/-- How a constant date or time is written. -/
inductive TemporalStyle where
  /-- `DATE '2024-01-31'` -/
  | keyword
  /-- `CAST('2024-01-31' AS DATE)` -/
  | cast
  /-- `DATE('2024-01-31')` -/
  | function
deriving DecidableEq, Repr

/-- How a part of a date is taken. -/
inductive ExtractStyle where
  /-- `EXTRACT(YEAR FROM x)` -/
  | standard
  /-- `DATEPART(YEAR, x)` -/
  | datePart
deriving DecidableEq, Repr

/-- How an interval is written. -/
inductive IntervalStyle where
  /-- `INTERVAL '1' DAY` -/
  | quoted
  /-- `INTERVAL 1 DAY` -/
  | bare
deriving DecidableEq, Repr

/-- How a bind parameter with an ordinal is written. -/
inductive ParamStyle where
  /-- `$1` -/
  | dollar
  /-- `?` -/
  | question
  /-- `?` or `?1` -/
  | questionNumbered
  /-- `@p1` -/
  | atName
  /-- `:1` -/
  | colon
deriving DecidableEq, Repr

/-- How a column with generated values is written. -/
inductive AutoIncrementStyle where
  /-- `AUTO_INCREMENT` -/
  | autoIncrement
  /-- `AUTOINCREMENT` -/
  | autoincrement
  /-- `IDENTITY(1,1)` -/
  | identity
  /-- `GENERATED BY DEFAULT AS IDENTITY` -/
  | generatedIdentity
deriving DecidableEq, Repr

/-! ## Rules -/

/-- A spelling of a binary operator and how tightly it binds. -/
structure OperatorRule where
  symbol : String
  op : BinaryOp
  precedence : Precedence
deriving DecidableEq, Repr

/-- What a dialect fixes about reading. -/
structure ReadingRules where
  operators : List OperatorRule
  doubleColonCast : Bool := false
  top : Bool := false
  limit : Bool := false
  limitComma : Bool := false
  offset : Bool := false
  fetch : Bool := false
  offsetRequiresOrder : Bool := false
  offsetRequiresLimit : Bool := false
  requireFrom : Bool := false
  typedLiterals : Bool := true
  booleanLiterals : Bool := true
  ilike : Bool := false
  /-- Whether `MINUS` means `EXCEPT`. -/
  minus : Bool := false
  ifFunctions : List String := []
  /-- Words for the current date and time. -/
  nowWords : List (String × TemporalKind)
  /-- Functions without arguments for the current date and time. -/
  nowFunctions : List (String × TemporalKind) := []
  functionAliases : Table String FunctionAlias
  unknownFunctions : UnknownFunctions := .accept
  typeNames : Table String TypeKind
  positionalParams : Bool := true
  numberedParams : Bool := false
  namedParams : Bool := false
deriving DecidableEq, Repr

namespace ReadingRules

/-- The rule for the symbol `symbol`, in any case. -/
def operator? (r : ReadingRules) (symbol : String) : Option OperatorRule :=
  r.operators.find? fun rule => Text.sameWord rule.symbol symbol

/-- The rule with the preferred spelling of `op`. -/
def spelling? (r : ReadingRules) (op : BinaryOp) : Option OperatorRule :=
  r.operators.find? fun rule => rule.op = op

end ReadingRules

/-- What a dialect fixes about writing. -/
structure WritingRules where
  nameQuote : Char × Char
  limitStyle : LimitStyle
  /-- The count for an offset without one, where an offset cannot stand alone. -/
  maxLimit : Option String := none
  booleans : BooleanStyle := .keyword
  concat : ConcatStyle := .operator
  /-- The conditional function; without one a conditional is a `CASE` expression. -/
  ifFunction : Option String := none
  temporals : TemporalStyle := .keyword
  currentDate : Option String
  currentTime : Option String
  currentTimestamp : String
  extract : Option ExtractStyle := some .standard
  interval : Option IntervalStyle := some .quoted
  safeCast : Option String := none
  exceptKeyword : String := "EXCEPT"
  /-- The word behind `CREATE OR` for views. -/
  orReplace : String := "REPLACE"
  functionNames : Table String FunctionSpelling := []
  typeNames : Table TypeKind String := []
  /-- Kinds written under the name of another, without their arguments. -/
  foldedTypes : List TypeKind := []
  /-- Whether `AS` stands before the alias of a table. -/
  tableAliasAs : Bool := true
  /-- The table named by a `SELECT` without sources. -/
  dummyTable : Option String := none
  namedParamMark : Option Char := none
deriving DecidableEq, Repr

/-- A dialect. -/
structure Dialect where
  name : String
  lexical : LexicalRules
  reading : ReadingRules
  writing : WritingRules
  unsupported : List Construct
  params : ParamStyle
  autoIncrement : Option AutoIncrementStyle
deriving DecidableEq, Repr

namespace Dialect

/-- Whether the dialect can say `c`. -/
def supports (d : Dialect) (c : Construct) : Bool := !d.unsupported.contains c

/-- The name of a kind of type. -/
def typeName (d : Dialect) (k : TypeKind) : String :=
  (d.writing.typeNames.get? k).getD k.standardName

/-- How the function `canonical` is written, if not under its own name. -/
def spelling? (d : Dialect) (canonical : String) : Option FunctionSpelling :=
  d.writing.functionNames.get? canonical

end Dialect

/-- The functions that every dialect knows; they are read into upper case. -/
def knownFunctions : List String :=
  ["ABS", "AVG", "CEIL", "COALESCE", "CONCAT", "COUNT", "DENSE_RANK", "EXP", "FIRST_VALUE",
    "FLOOR", "GREATEST", "LAG", "LAST_VALUE", "LEAD", "LEAST", "LEFT", "LENGTH", "LN", "LOG",
    "LOWER", "LTRIM", "MAX", "MIN", "MOD", "NTILE", "NULLIF", "POWER", "RANDOM", "RANK",
    "REPLACE", "REVERSE", "RIGHT", "ROUND", "ROW_NUMBER", "RTRIM", "SIGN", "SQRT", "STRPOS",
    "SUBSTRING", "SUM", "TRIM", "UPPER"]

end SqlDialects
