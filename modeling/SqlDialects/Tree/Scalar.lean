import SqlDialects.Text.Blank
import SqlDialects.Tree.DataType

/-!
# The leaves of expressions

* `Name` : an identifier, bare or quoted;
* `Literal`, `TemporalKind` : constants, and the three kinds of date and time;
* `Param` : bind parameters;
* `BinaryOp`, `UnaryOp` : operators by their meaning;
* `DateField` : the parts of a date, with their spellings.
-/

namespace SqlDialects

/-- An identifier, with whether it was written in quotes. -/
structure Name where
  text : String
  quoted : Bool := false
deriving DecidableEq, Repr

/-- A possibly qualified name, outermost part first. -/
abbrev QualifiedName := List Name

/-- The parts of a qualified name with dots between them, without quotes. -/
def QualifiedName.dotted (n : QualifiedName) : String :=
  String.intercalate "." (n.map Name.text)

/-- The three kinds of date and time. -/
inductive TemporalKind where
  | date
  | time
  | timestamp
deriving DecidableEq, Repr

namespace TemporalKind

/-- The word for a kind. -/
def keyword : TemporalKind → String
  | date => "DATE"
  | time => "TIME"
  | timestamp => "TIMESTAMP"

/-- The kind whose word is `word`, which is in upper case. -/
def ofKeyword? (word : String) : Option TemporalKind :=
  [date, time, timestamp].find? fun k => k.keyword == word

/-- The type of a value of a kind. -/
def dataType : TemporalKind → DataType
  | date => .date
  | time => .time
  | timestamp => .timestamp

end TemporalKind

/-- A constant. -/
inductive Literal where
  /-- A number as written. -/
  | number (digits : String)
  | string (value : String)
  | boolean (value : Bool)
  | null
  /-- A date or time in a form that its kind admits. -/
  | temporal (kind : TemporalKind) (value : String)
deriving DecidableEq, Repr

/-- A bind parameter. -/
inductive Param where
  /-- A bare mark, with its place from one among those of its statement. -/
  | positional (ordinal : Nat)
  | numbered (ordinal : Nat)
  | named (name : String)
deriving DecidableEq, Repr

/-- A binary operator by its meaning. -/
inductive BinaryOp where
  | plus
  | minus
  | multiply
  | divide
  | modulo
  /-- The concatenation of two strings. -/
  | concat
  | eq
  | notEq
  | lt
  | ltEq
  | gt
  | gtEq
  | and
  | or
  | bitAnd
  | bitOr
  | bitXor
  | shiftLeft
  | shiftRight
  | power
deriving DecidableEq, Repr

namespace BinaryOp

/-- Every operator once. -/
def all : List BinaryOp :=
  [plus, minus, multiply, divide, modulo, concat, eq, notEq, lt, ltEq, gt, gtEq, and, or, bitAnd,
    bitOr, bitXor, shiftLeft, shiftRight, power]

theorem mem_all (op : BinaryOp) : op ∈ all := by cases op <;> decide

/-- How an operator is named in messages. -/
def describe : BinaryOp → String
  | plus => "addition"
  | minus => "subtraction"
  | multiply => "multiplication"
  | divide => "division"
  | modulo => "modulo"
  | concat => "string concatenation"
  | eq => "="
  | notEq => "<>"
  | lt => "<"
  | ltEq => "<="
  | gt => ">"
  | gtEq => ">="
  | and => "AND"
  | or => "OR"
  | bitAnd => "bitwise AND"
  | bitOr => "bitwise OR"
  | bitXor => "bitwise XOR"
  | shiftLeft => "left shift"
  | shiftRight => "right shift"
  | power => "exponentiation"

end BinaryOp

/-- A unary operator by its meaning. -/
inductive UnaryOp where
  | not
  | minus
  | plus
  | bitNot
deriving DecidableEq, Repr

/-- A part of a date or time. -/
inductive DateField where
  | year
  | quarter
  | month
  | week
  | day
  | dayOfWeek
  | dayOfYear
  | hour
  | minute
  | second
deriving DecidableEq, Repr

namespace DateField

/-- The spellings of each part, in upper case; the standard one first. -/
def spellings : List (DateField × List String) :=
  [(year, ["YEAR", "YEARS", "YY", "YYYY"]), (quarter, ["QUARTER", "QQ"]),
    (month, ["MONTH", "MONTHS", "MM"]), (week, ["WEEK", "WEEKS", "WK"]),
    (day, ["DAY", "DAYS", "DD"]), (dayOfWeek, ["DOW", "DAYOFWEEK", "WEEKDAY", "DW"]),
    (dayOfYear, ["DOY", "DAYOFYEAR", "DY"]), (hour, ["HOUR", "HOURS", "HH"]),
    (minute, ["MINUTE", "MINUTES", "MI"]), (second, ["SECOND", "SECONDS", "SS"])]

/-- The part that `word` names, in any case. -/
def ofWord? (word : String) : Option DateField :=
  (spellings.find? fun entry => entry.2.contains (Text.upper word)).map Prod.fst

/-- The standard spelling of a part. -/
def keyword : DateField → String
  | year => "YEAR"
  | quarter => "QUARTER"
  | month => "MONTH"
  | week => "WEEK"
  | day => "DAY"
  | dayOfWeek => "DOW"
  | dayOfYear => "DOY"
  | hour => "HOUR"
  | minute => "MINUTE"
  | second => "SECOND"

/-- The spelling of a part as the first argument of the function `DATEPART`. -/
def datepart : DateField → String
  | dayOfWeek => "WEEKDAY"
  | dayOfYear => "DAYOFYEAR"
  | other => other.keyword

end DateField

/-- An amount and a part from the text of an interval such as `3 days`. The amount has digits and
points, after an optional minus sign. -/
def splitInterval? (text : String) : Option (String × DateField) :=
  match Text.words text with
  | [amount, unit] =>
    match DateField.ofWord? unit with
    | some field =>
      let cs := amount.toList
      let digits := if cs.head? == some '-' then cs.tail else cs
      if digits.isEmpty || !digits.all (fun c => c.isDigit || c == '.') then none
      else some (amount, field)
    | none => none
  | _ => none

end SqlDialects
