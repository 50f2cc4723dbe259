import SqlDialects.Dialect.Build

/-!
# Dialects of database servers and of the embedded engine

The families of `postgres`, `mysql` and `tsql`, whose other members differ from the first in a few
constructs, and `oracle` and `sqlite`.
-/

namespace SqlDialects.Dialect

/-! ## The family of `postgres` -/

/-- The first of its family: `::` casts, `$1` bind parameters, nested comments. -/
def postgres : Dialect :=
  let d := (base "postgres").changes
    [.limitStyle .limitOffset, .doubleColonCast, .ilike, .support .distinctOn,
      .support .returning, .operator "^" .power .power, .operator "#" .bitXor .bitXor,
      .bindBy .dollar ['$'] none,
      .currentTimes standardNowWords [("NOW", .timestamp)]
        (some "CURRENT_DATE") (some "CURRENT_TIME") (some "CURRENT_TIMESTAMP"),
      .renameType .double "DOUBLE PRECISION", .foldType .tinyInt "SMALLINT",
      .renameType .varbinary "BYTEA", .foldType .binary "BYTEA"]
  { d with
    lexical.dollarStrings := true
    lexical.nestedComments := true
    lexical.folding := .lower }

/-- Has `QUALIFY`, and neither `DISTINCT ON` nor `RETURNING`. -/
def redshift : Dialect :=
  postgres.changes
    [.named "redshift", .support .qualify, .forbid .distinctOn, .forbid .returning,
      .release ["RETURNING"]]

/-- Says what `postgres` says. -/
def materialize : Dialect := postgres.named "materialize"

/-- Says what `postgres` says. -/
def risingwave : Dialect := postgres.named "risingwave"

/-! ## The family of `mysql` -/

/-- The largest count of rows, for an offset without a limit. -/
def mysqlMaxRows : String := "18446744073709551615"

/-- The first of its family: names in backticks, strings in either quote, `||` for `OR`. -/
def mysql : Dialect :=
  let d := (base "mysql").changes
    [.limitStyle .limitOffset, .limitComma, .offsetRequiresLimit mysqlMaxRows,
      .quoteNames '`' '`', .operator "||" .or .or, .forbid .fullOuterJoin,
      .forbid .nullsOrdering, .ifFunction "IF", .renameFunction "LENGTH" "CHAR_LENGTH",
      .renameFunction "RANDOM" "RAND", .swapFunction "STRPOS" "LOCATE",
      .renameType .timestamp "DATETIME", .renameType .timestampTz "TIMESTAMP",
      .foldType .uuid "CHAR(36)", .autoIncrementBy (some .autoIncrement),
      .currentTimes standardNowWords
        [("NOW", .timestamp), ("CURDATE", .date), ("CURTIME", .time)]
        (some "CURRENT_DATE") (some "CURRENT_TIME") (some "CURRENT_TIMESTAMP")]
  { d with
    lexical.nameQuotes := [('`', '`')]
    lexical.stringQuotes := ['\'', '"']
    lexical.backslashEscapes := true
    lexical.hashComments := true
    lexical.folding := .none
    writing.concat := .function
    writing.interval := some .bare }

/-- Says what `mysql` says. -/
def singlestore : Dialect := mysql.named "singlestore"

/-- Adds the full outer join. -/
def doris : Dialect := (mysql.named "doris").support .fullOuterJoin

/-- Adds the full outer join. -/
def starrocks : Dialect := (mysql.named "starrocks").support .fullOuterJoin

/-! ## The family of `tsql` -/

/-- The first of its family: `TOP`, names in square brackets, truth values written as numbers. -/
def tsql : Dialect :=
  let d := (base "tsql").changes
    [.limitStyle (.top true), .quoteNames '[' ']', .removeOperator "||", .integerBooleans,
      .temporalStyle .cast, .ifFunction "IIF", .safeCast "TRY_CAST",
      .aliasFunction "ISNULL" (.rename "COALESCE"), .renameFunction "LENGTH" "LEN",
      .renameFunction "CEIL" "CEILING", .renameFunction "RANDOM" "RAND",
      .swapFunction "STRPOS" "CHARINDEX", .renameType .boolean "BIT",
      .renameType .double "FLOAT", .renameType .text "VARCHAR(MAX)",
      .renameType .timestamp "DATETIME2", .renameType .timestampTz "DATETIMEOFFSET",
      .renameType .uuid "UNIQUEIDENTIFIER", .foldType .json "NVARCHAR(MAX)",
      .forbid .naturalJoin, .forbid .joinUsing, .forbid .nullsOrdering, .forbid .ifNotExists,
      .forbid .dropCascade, .bindBy .atName ['@'] (some '@'),
      .autoIncrementBy (some .identity),
      .currentTimes [("CURRENT_TIMESTAMP", .timestamp)]
        [("GETDATE", .timestamp), ("SYSDATETIME", .timestamp)]
        (some "CAST(GETDATE() AS DATE)") (some "CAST(GETDATE() AS TIME)") (some "GETDATE()"),
      .release ["CURRENT_DATE", "CURRENT_TIME", "INTERVAL"]]
  { d with
    lexical.nameQuotes := [('[', ']'), ('"', '"')]
    lexical.nationalStrings := true
    lexical.wordStarts := ['#']
    lexical.folding := .none
    writing.concat := .plus
    writing.extract := some .datePart
    writing.interval := none
    writing.orReplace := "ALTER" }

/-- Says what `tsql` says. -/
def fabric : Dialect := tsql.named "fabric"

/-! ## `oracle` and `sqlite` -/

/-- Selects from `DUAL` where no table is named, and takes `MINUS` for `EXCEPT`. -/
def oracle : Dialect :=
  let d := (base "oracle").changes
    [.limitStyle .fetchFirst, .integerBooleans, .renameFunction "STRPOS" "INSTR",
      .renameFunction "SUBSTRING" "SUBSTR", .renameType .varchar "VARCHAR2",
      .renameType .text "CLOB", .renameType .decimal "NUMBER",
      .renameType .double "DOUBLE PRECISION", .foldType .boolean "NUMBER(1)",
      .removeOperator "%", .removeOperator "&", .removeOperator "|", .removeOperator "^",
      .removeOperator "<<", .removeOperator ">>", .forbid .ifNotExists, .forbid .ifExists,
      .forbid .dropCascade, .bindBy .colon [':'] (some ':'),
      .currentTimes [("CURRENT_DATE", .date), ("CURRENT_TIMESTAMP", .timestamp)] []
        (some "CURRENT_DATE") none (some "CURRENT_TIMESTAMP"),
      .release ["CURRENT_TIME"], .reserve ["MINUS"]]
  { d with
    reading.requireFrom := true
    reading.minus := true
    writing.exceptKeyword := "MINUS"
    writing.dummyTable := some "DUAL"
    writing.tableAliasAs := false }

/-- Has neither intervals nor `EXTRACT`, and writes dates and times as function calls. -/
def sqlite : Dialect :=
  let d := (base "sqlite").changes
    [.limitStyle .limitOffset, .limitComma, .offsetRequiresLimit "-1",
      .operator "==" .eq .comparison, .temporalStyle .function, .support .returning,
      .forbid .dropCascade, .ifFunction "IIF", .renameFunction "SUBSTRING" "SUBSTR",
      .renameFunction "STRPOS" "INSTR",
      .bindBy .questionNumbered ['?', ':', '@', '$'] (some ':'),
      .autoIncrementBy (some .autoincrement), .release ["INTERVAL"]]
  { d with
    lexical.nameQuotes := [('"', '"'), ('`', '`'), ('[', ']')]
    lexical.folding := .none
    writing.extract := none
    writing.interval := none }

end SqlDialects.Dialect
