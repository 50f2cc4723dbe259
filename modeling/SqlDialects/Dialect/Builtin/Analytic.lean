import SqlDialects.Dialect.Build

/-!
# Dialects of analytic engines

The families of `hive` and `presto`, and `duckdb`, `bigquery`, `snowflake` and `clickhouse`.
-/

namespace SqlDialects.Dialect

/-! ## The family of `hive` -/

/-- The first of its family: names in backticks, strings in either quote, no offset. -/
def hive : Dialect :=
  let d := (base "hive").changes
    [.limitStyle .limitOnly, .quoteNames '`' '`', .ifFunction "IF",
      .renameFunction "RANDOM" "RAND", .renameFunction "STRPOS" "INSTR",
      .renameType .text "STRING", .autoIncrementBy none]
  { d with
    lexical.nameQuotes := [('`', '`')]
    lexical.stringQuotes := ['\'', '"']
    lexical.backslashEscapes := true
    lexical.folding := .none
    writing.interval := some .bare }

/-- Says what `hive` says. -/
def spark2 : Dialect := hive.named "spark2"

/-- Adds offsets, the safe cast and `ILIKE`. -/
def spark : Dialect :=
  hive.changes [.named "spark", .limitStyle .limitOffset, .safeCast "TRY_CAST", .ilike]

/-- Adds `QUALIFY`. -/
def databricks : Dialect := (spark.named "databricks").support .qualify

/-! ## The family of `presto` -/

/-- The first of its family: the offset stands before the limit. -/
def presto : Dialect :=
  let d := (base "presto").changes
    [.limitStyle .offsetLimit, .safeCast "TRY_CAST", .ifFunction "IF",
      .renameType .int "INTEGER", .foldType .text "VARCHAR", .autoIncrementBy none]
  { d with lexical.folding := .lower }

/-- Says what `presto` says. -/
def trino : Dialect := presto.named "trino"

/-- Says what `presto` says. -/
def athena : Dialect := presto.named "athena"

/-- Says what `presto` says. -/
def dune : Dialect := presto.named "dune"

/-! ## Others -/

/-- Close to `postgres`, with `QUALIFY`, the safe cast and whole division by `//`. -/
def duckdb : Dialect :=
  let d := (base "duckdb").changes
    [.limitStyle .limitOffset, .doubleColonCast, .ilike, .support .qualify,
      .support .distinctOn, .support .returning, .safeCast "TRY_CAST", .ifFunction "IF",
      .operator "^" .power .power, .operator "**" .power .power,
      .operator "//" .divide .multiplicative,
      .bindBy .questionNumbered ['?', '$'] (some '$'), .autoIncrementBy none]
  { d with
    lexical.dollarStrings := true
    lexical.folding := .none }

/-- Has a name of its own for nearly every type, and names in backticks. -/
def bigquery : Dialect :=
  let d := (base "bigquery").changes
    [.limitStyle .limitOffset, .quoteNames '`' '`', .support .qualify, .safeCast "SAFE_CAST",
      .ifFunction "IF", .renameFunction "SUBSTRING" "SUBSTR", .renameFunction "RANDOM" "RAND",
      .renameType .int "INT64", .foldType .bigInt "INT64", .foldType .smallInt "INT64",
      .foldType .tinyInt "INT64", .renameType .double "FLOAT64", .foldType .real "FLOAT64",
      .renameType .varchar "STRING", .foldType .text "STRING", .foldType .char "STRING",
      .renameType .decimal "NUMERIC", .renameType .boolean "BOOL",
      .renameType .varbinary "BYTES", .foldType .binary "BYTES",
      .renameType .timestamp "DATETIME", .renameType .timestampTz "TIMESTAMP",
      .bindBy .question ['?', '@'] (some '@'), .autoIncrementBy none]
  { d with
    lexical.nameQuotes := [('`', '`')]
    lexical.stringQuotes := ['\'', '"']
    lexical.backslashEscapes := true
    lexical.hashComments := true
    lexical.folding := .none
    writing.interval := some .bare }

/-- Spells out whether a timestamp has a zone, and folds names to upper case. -/
def snowflake : Dialect :=
  let d := (base "snowflake").changes
    [.limitStyle .limitOffset, .doubleColonCast, .ilike, .support .qualify,
      .safeCast "TRY_CAST", .ifFunction "IFF", .swapFunction "STRPOS" "CHARINDEX",
      .renameType .timestamp "TIMESTAMP_NTZ", .renameType .timestampTz "TIMESTAMP_TZ",
      .autoIncrementBy (some .autoincrement), .reserve ["MINUS"]]
  { d with
    reading.minus := true
    lexical.folding := .upper }

/-- Names types by their width. -/
def clickhouse : Dialect :=
  let d := (base "clickhouse").changes
    [.limitStyle .limitOffset, .limitComma, .ifFunction "IF",
      .renameFunction "STRPOS" "position", .renameType .tinyInt "Int8",
      .renameType .smallInt "Int16", .renameType .int "Int32", .renameType .bigInt "Int64",
      .renameType .real "Float32", .renameType .double "Float64", .renameType .text "String",
      .foldType .varchar "String", .foldType .char "String", .renameType .boolean "Bool",
      .renameType .timestamp "DateTime", .autoIncrementBy none]
  { d with
    lexical.nameQuotes := [('"', '"'), ('`', '`')]
    lexical.backslashEscapes := true
    lexical.folding := .none
    writing.interval := some .bare }

end SqlDialects.Dialect
