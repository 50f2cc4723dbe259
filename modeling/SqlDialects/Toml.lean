/-!
# TOML values and documents

* `Toml` : the values of a TOML document that settings can hold: strings, integers, truth values,
  arrays and tables;
* `Toml.Entry` : a line of a document: the header of a table, of an element of an array of tables,
  or a field;
* `Toml.ofEntries?` : the table that the lines of a document define, unless one of them defines
  something twice.

A table remembers what defined it, because that decides what may still be added to it.
-/

namespace SqlDialects

/-- What defined a table. -/
inductive Toml.Origin where
  /-- The header of a table inside it. -/
  | implicit
  /-- A dotted key. -/
  | dotted
  /-- Its own header. -/
  | header
  /-- Braces; nothing can be added. -/
  | inline
deriving DecidableEq, Repr

/-- A TOML value. -/
inductive Toml where
  | string (s : String)
  | integer (n : Int)
  | boolean (b : Bool)
  | array (items : List Toml)
  | table (origin : Toml.Origin) (fields : List (String × Toml))
  /-- An array of tables that headers define, the last one first. -/
  | tables (items : List (List (String × Toml)))

namespace Toml

/-- The fields of a table. -/
abbrev Fields := List (String × Toml)

/-- The value of a field. -/
def Fields.get? (fs : Fields) (key : String) : Option Toml :=
  (fs.find? fun f => f.1 == key).map Prod.snd

/-- The fields with `v` at `key`, in its old place or at the end. -/
def Fields.set (fs : Fields) (key : String) (v : Toml) : Fields :=
  if fs.any (·.1 == key) then fs.map fun f => if f.1 == key then (key, v) else f
  else fs ++ [(key, v)]

/-- A line of a document. -/
inductive Entry where
  /-- `[path]` -/
  | header (path : List String)
  /-- `[[path]]` -/
  | element (path : List String)
  /-- `path = value` -/
  | field (path : List String) (value : Toml)

/-- Changes the table at `path` by `f`. Tables that are missing on the way are created; an array of
tables leads to its last element. -/
def within (f : Fields → Option Fields) : List String → Fields → Option Fields
  | [], fs => f fs
  | key :: path, fs =>
    match fs.get? key with
    | none => (within f path []).map fun sub => fs.set key (.table .implicit sub)
    | some (.table .inline _) => none
    | some (.table origin sub) => (within f path sub).map fun sub => fs.set key (.table origin sub)
    | some (.tables (last :: before)) =>
      (within f path last).map fun last => fs.set key (.tables (last :: before))
    | some _ => none

/-- Opens the table `key` by its own header, which may come once and behind the headers of tables
inside it. -/
def openTable (key : String) (fs : Fields) : Option Fields :=
  match fs.get? key with
  | none => some (fs.set key (.table .header []))
  | some (.table .implicit sub) => some (fs.set key (.table .header sub))
  | some _ => none

/-- Opens a new element of the array of tables `key`. -/
def openElement (key : String) (fs : Fields) : Option Fields :=
  match fs.get? key with
  | none => some (fs.set key (.tables [[]]))
  | some (.tables items) => some (fs.set key (.tables ([] :: items)))
  | some _ => none

/-- Puts a value at a dotted key. A dotted key adds to the tables of dotted keys only; `dotted`
tells whether these are the fields of one, or the key has one part. -/
def assign (v : Toml) (dotted : Bool) : List String → Fields → Option Fields
  | [], _ => none
  | [key], fs => if dotted && (fs.get? key).isNone then some (fs.set key v) else none
  | key :: path, fs =>
    match fs.get? key with
    | none => (assign v true path []).map fun sub => fs.set key (.table .dotted sub)
    | some (.table .dotted sub) =>
      (assign v true path sub).map fun sub => fs.set key (.table .dotted sub)
    | some (.table .implicit sub) =>
      (assign v false path sub).map fun sub => fs.set key (.table .implicit sub)
    | some (.tables (last :: before)) =>
      (assign v false path last).map fun last => fs.set key (.tables (last :: before))
    | some _ => none

/-- The path of the table that the next fields belong to, and the whole table. -/
abbrev State := List String × Fields

/-- The state after a line. -/
def step : State → Entry → Option State
  | (_, root), .header path =>
    match path.getLast? with
    | some key => (within (openTable key) path.dropLast root).map fun root => (path, root)
    | none => none
  | (_, root), .element path =>
    match path.getLast? with
    | some key => (within (openElement key) path.dropLast root).map fun root => (path, root)
    | none => none
  | (here, root), .field path v =>
    (within (assign v true path) here root).map fun root => (here, root)

/-- The table that the lines of a document define. -/
def ofEntries? (entries : List Entry) : Option Fields :=
  (entries.foldlM step ([], [])).map Prod.snd

/-- The table that the fields between braces define. -/
def ofInline? (fields : List (List String × Toml)) : Option Fields :=
  fields.foldlM (fun fs (path, v) => assign v true path fs) []

end Toml

end SqlDialects
