import SqlDialects.Text.Ascii

/-!
# Data types

* `TypeKind` : the kinds of type that have a meaning in every dialect;
* `DataType` : a type with its arguments, or one that is known by its spelling only;
* `TypeKind.withParams`, `DataType.kind?`, `DataType.params` : a type from its kind and arguments,
  and back;
* `commonTypeNames` : the spellings that dialects share.
-/

namespace SqlDialects

/-- The kinds of type that have a meaning in every dialect. -/
inductive TypeKind where
  | boolean
  | tinyInt
  | smallInt
  | int
  | bigInt
  | real
  | double
  | decimal
  | char
  | varchar
  | text
  | binary
  | varbinary
  | date
  | time
  | timestamp
  | timestampTz
  | json
  | uuid
deriving DecidableEq, Repr

/-- A column type or the target of a cast. -/
inductive DataType where
  | boolean
  | tinyInt
  | smallInt
  | int
  | bigInt
  | real
  | double
  | decimal (precision scale : Option Nat)
  | char (length : Option Nat)
  | varchar (length : Option Nat)
  | text
  | binary (length : Option Nat)
  | varbinary (length : Option Nat)
  | date
  | time
  | timestamp
  | timestampTz
  | json
  | uuid
  /-- A type known by its spelling only. -/
  | custom (spelling : String)
deriving DecidableEq, Repr

namespace TypeKind

/-- Every kind once. -/
def all : List TypeKind :=
  [boolean, tinyInt, smallInt, int, bigInt, real, double, decimal, char, varchar, text, binary,
    varbinary, date, time, timestamp, timestampTz, json, uuid]

theorem mem_all (k : TypeKind) : k ∈ all := by cases k <;> decide

/-- The spelling of a kind where a dialect has none of its own. -/
def standardName : TypeKind → String
  | boolean => "BOOLEAN"
  | tinyInt => "TINYINT"
  | smallInt => "SMALLINT"
  | int => "INT"
  | bigInt => "BIGINT"
  | real => "REAL"
  | double => "DOUBLE"
  | decimal => "DECIMAL"
  | char => "CHAR"
  | varchar => "VARCHAR"
  | text => "TEXT"
  | binary => "BINARY"
  | varbinary => "VARBINARY"
  | date => "DATE"
  | time => "TIME"
  | timestamp => "TIMESTAMP"
  | timestampTz => "TIMESTAMPTZ"
  | json => "JSON"
  | uuid => "UUID"

/-- The name of a kind as a key: its words in lower case, joined by underscores. -/
def key : TypeKind → String
  | tinyInt => "tiny_int"
  | smallInt => "small_int"
  | bigInt => "big_int"
  | timestampTz => "timestamp_tz"
  | other => Text.lowerAscii other.standardName

/-- The kind with the standard name `name`, in any case; blanks and hyphens count as underscores,
and the zoned timestamp may be written as two words. -/
def ofName? (name : String) : Option TypeKind :=
  let joined := (Text.upper name).toList.map fun c => if c == ' ' || c == '-' then '_' else c
  if joined == "TIMESTAMP_TZ".toList then some timestampTz
  else all.find? fun k => k.standardName.toList == joined

/-- The type of this kind with the given arguments; a kind without parameters ignores them. -/
def withParams (k : TypeKind) (params : List Nat) : DataType :=
  match k with
  | boolean => .boolean
  | tinyInt => .tinyInt
  | smallInt => .smallInt
  | int => .int
  | bigInt => .bigInt
  | real => .real
  | double => .double
  | decimal => .decimal params[0]? params[1]?
  | char => .char params[0]?
  | varchar => .varchar params[0]?
  | text => .text
  | binary => .binary params[0]?
  | varbinary => .varbinary params[0]?
  | date => .date
  | time => .time
  | timestamp => .timestamp
  | timestampTz => .timestampTz
  | json => .json
  | uuid => .uuid

end TypeKind

namespace DataType

/-- The kind of a type, unless only its spelling is known. -/
def kind? : DataType → Option TypeKind
  | boolean => some .boolean
  | tinyInt => some .tinyInt
  | smallInt => some .smallInt
  | int => some .int
  | bigInt => some .bigInt
  | real => some .real
  | double => some .double
  | decimal _ _ => some .decimal
  | char _ => some .char
  | varchar _ => some .varchar
  | text => some .text
  | binary _ => some .binary
  | varbinary _ => some .varbinary
  | date => some .date
  | time => some .time
  | timestamp => some .timestamp
  | timestampTz => some .timestampTz
  | json => some .json
  | uuid => some .uuid
  | custom _ => none

/-- The arguments of a type, in the order in which they are written. -/
def params : DataType → List Nat
  | decimal precision scale => precision.toList ++ scale.toList
  | char n | varchar n | binary n | varbinary n => n.toList
  | _ => []

end DataType

/-- The kind of a type built from a kind is that kind. -/
@[simp] theorem TypeKind.kind?_withParams (k : TypeKind) (params : List Nat) :
    (k.withParams params).kind? = some k := by
  cases k <;> rfl

/-- The spellings that every dialect accepts unless it says otherwise. Some span several words. -/
def commonTypeNames : List (String × TypeKind) :=
  [("BOOLEAN", .boolean), ("BOOL", .boolean), ("TINYINT", .tinyInt), ("SMALLINT", .smallInt),
    ("INT2", .smallInt), ("INT", .int), ("INTEGER", .int), ("INT4", .int), ("MEDIUMINT", .int),
    ("BIGINT", .bigInt), ("INT8", .bigInt), ("REAL", .real), ("FLOAT4", .real),
    ("DOUBLE", .double), ("DOUBLE PRECISION", .double), ("FLOAT8", .double), ("FLOAT", .double),
    ("DECIMAL", .decimal), ("NUMERIC", .decimal), ("CHAR", .char), ("CHARACTER", .char),
    ("VARCHAR", .varchar), ("CHARACTER VARYING", .varchar), ("NVARCHAR", .varchar),
    ("TEXT", .text), ("BINARY", .binary), ("VARBINARY", .varbinary), ("BLOB", .varbinary),
    ("BYTEA", .varbinary), ("DATE", .date), ("TIME", .time), ("TIME WITHOUT TIME ZONE", .time),
    ("TIMESTAMP", .timestamp), ("TIMESTAMP WITHOUT TIME ZONE", .timestamp),
    ("DATETIME", .timestamp), ("TIMESTAMPTZ", .timestampTz),
    ("TIMESTAMP WITH TIME ZONE", .timestampTz), ("JSON", .json), ("UUID", .uuid)]

end SqlDialects
