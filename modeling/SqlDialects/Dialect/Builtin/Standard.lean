import SqlDialects.Dialect.Build

/-!
# Dialects close to the standard

`ansi` writes `FETCH FIRST` but reads `LIMIT` too; `drill`, `druid`, `exasol` and `tableau` limit
rows by `LIMIT` and differ from it in little else; `teradata` has `TOP` without offsets.
-/

namespace SqlDialects.Dialect

/-- The standard itself. -/
def ansi : Dialect := (base "ansi").acceptLimit.positionFunction

/-- Limits rows by `LIMIT` and quotes names by backticks. -/
def drill : Dialect := ((base "drill").limitStyle .limitOffset).quoteNames '`' '`'

/-- Limits rows by `LIMIT`. -/
def druid : Dialect := (base "druid").limitStyle .limitOffset

/-- Limits rows by `LIMIT`, which may list the offset before the count. -/
def exasol : Dialect := ((base "exasol").limitStyle .limitOffset).limitComma

/-- Limits rows by `LIMIT`, quotes names by square brackets and calls the conditional `IIF`. -/
def tableau : Dialect :=
  (((base "tableau").limitStyle .limitOffset).quoteNames '[' ']').ifFunction "IIF"

/-- Limits rows by `TOP` and has no offset. -/
def teradata : Dialect :=
  (base "teradata").changes
    [.limitStyle (.top false), .support .qualify, .integerBooleans,
      .operator "**" .power .power, .foldType .boolean "BYTEINT", .forbid .ifNotExists,
      .forbid .ifExists]

end SqlDialects.Dialect
