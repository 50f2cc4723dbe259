/-!
# JSON values

* `Json` : values with natural numbers, whose objects keep the order of their fields;
* `Json.pretty` : the text of a value with one element a line.
-/

namespace SqlDialects

/-- A JSON value. The fields of an object keep their order. -/
inductive Json where
  | null
  | bool (b : Bool)
  | number (n : Nat)
  | string (s : String)
  | array (items : List Json)
  | object (fields : List (String × Json))

namespace Json

/-- A tagged value: the object with one field. -/
def tagged (tag : String) (value : Json) : Json := .object [(tag, value)]

/-- A value that may be missing. -/
def ofOption {α : Type} (f : α → Json) : Option α → Json
  | none => .null
  | some a => f a

/-- A list of values. -/
def ofList {α : Type} (f : α → Json) (xs : List α) : Json := .array (xs.map f)

/-- A character of a string. Only quotes, backslashes and control characters are escaped. -/
def escapeChar (c : Char) : List Char :=
  if c == '"' then ['\\', '"']
  else if c == '\\' then ['\\', '\\']
  else if c == '\n' then ['\\', 'n']
  else if c == '\r' then ['\\', 'r']
  else if c == '\t' then ['\\', 't']
  else if c.toNat == 8 then ['\\', 'b']
  else if c.toNat == 12 then ['\\', 'f']
  else if c.toNat < 32 then
    ['\\', 'u', '0', '0', Nat.digitChar (c.toNat / 16), Nat.digitChar (c.toNat % 16)]
  else [c]

/-- A string in double quotes. -/
def quote (s : String) : String := .ofList ('"' :: s.toList.flatMap escapeChar ++ ['"'])

/-- A line feed and the blanks of `depth` levels. -/
def newline (depth : Nat) : String := .ofList ('\n' :: List.replicate (2 * depth) ' ')

mutual

/-- The text of a value whose inner lines are `depth` levels in. -/
def prettyAt (depth : Nat) : Json → String
  | .null => "null"
  | .bool b => if b then "true" else "false"
  | .number n => toString n
  | .string s => quote s
  | .array [] => "[]"
  | .array items =>
    "[" ++ String.intercalate "," (prettyItems (depth + 1) items) ++ newline depth ++ "]"
  | .object [] => "\x7b\x7d"
  | .object fields =>
    "\x7b" ++ String.intercalate "," (prettyFields (depth + 1) fields) ++ newline depth ++ "\x7d"

/-- The texts of the elements of an array, each on a line of its own. -/
def prettyItems (depth : Nat) : List Json → List String
  | [] => []
  | v :: rest => (newline depth ++ prettyAt depth v) :: prettyItems depth rest

/-- The texts of the fields of an object, each on a line of its own. -/
def prettyFields (depth : Nat) : List (String × Json) → List String
  | [] => []
  | (key, v) :: rest =>
    (newline depth ++ quote key ++ ": " ++ prettyAt depth v) :: prettyFields depth rest

end

/-- The text of a value with one element a line, two blanks a level. -/
def pretty (v : Json) : String := prettyAt 0 v

end Json

end SqlDialects
