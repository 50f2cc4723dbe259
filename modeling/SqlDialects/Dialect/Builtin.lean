import SqlDialects.Dialect.Builtin.Analytic
import SqlDialects.Dialect.Builtin.Server
import SqlDialects.Dialect.Builtin.Standard

/-!
# The dialects that come with the library

* `Dialect.builtins` : all thirty of them.
-/

namespace SqlDialects.Dialect

/-- The dialects that come with the library. -/
def builtins : List Dialect :=
  [ansi, drill, druid, exasol, tableau, postgres, redshift, materialize, risingwave, mysql,
    singlestore, doris, starrocks, tsql, fabric, hive, spark2, spark, databricks, presto, trino,
    athena, dune, sqlite, duckdb, bigquery, snowflake, oracle, clickhouse, teradata]

end SqlDialects.Dialect
