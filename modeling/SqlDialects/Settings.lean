import SqlDialects.Registry
import SqlDialects.Render.Basic
import SqlDialects.Toml.Reader

/-!
# Settings

* `Settings` : the defaults of the command line and custom dialects;
* `Settings.parse` : the settings of a TOML document. Unknown keys and values of a wrong type are
  refused, and every key may be left out;
* `CustomDialect.build` : a custom dialect on top of its base;
* `Settings.registerAll` : a registry with all custom dialects. They are built before the first is
  registered, so a bad one changes nothing.
-/

namespace SqlDialects

/-- Defaults for the flags of the command line. -/
structure Defaults where
  read : Option String := none
  write : Option String := none
  pretty : Bool := false
  indent : Option Nat := none
  identify : Bool := false
deriving DecidableEq, Repr

/-- The layout that defaults describe. -/
def Defaults.layout (d : Defaults) : Layout :=
  { pretty := d.pretty, indent := d.indent.getD 2, identify := d.identify }

/-- A dialect that changes a few rules of another. -/
structure CustomDialect where
  name : String := ""
  base : Option String := none
  nameQuote : Option String := none
  limitStyle : Option LimitStyle := none
  unknownFunctions : Option UnknownFunctions := none
  reserved : List String := []
  /-- Names that are read as other functions. -/
  functionAliases : List (String × String) := []
  /-- Functions that are written under other names. -/
  functionNames : List (String × String) := []
deriving DecidableEq, Repr

/-- The defaults of the command line and custom dialects. -/
structure Settings where
  defaults : Defaults := {}
  dialects : List CustomDialect := []
deriving DecidableEq, Repr

/-! ## Values -/

namespace Toml

/-- A string. -/
def string? : Toml → Option String
  | .string s => some s
  | _ => none

/-- A truth value. -/
def boolean? : Toml → Option Bool
  | .boolean b => some b
  | _ => none

/-- A natural number. -/
def nat? : Toml → Option Nat
  | .integer n => if 0 ≤ n then some n.toNat else none
  | _ => none

/-- A list of strings. -/
def strings? : Toml → Option (List String)
  | .array items => items.mapM string?
  | _ => none

/-- A table, whatever defined it. -/
def fields? : Toml → Option Fields
  | .table _ fields => some fields
  | _ => none

/-- A record with the given keys: a table, or the array of its values in the order of the keys. -/
def record? (keys : List String) : Toml → Option Fields
  | .array items => some (keys.zip items)
  | other => other.fields?

/-- The elements of a list, be it written as an array or by headers. -/
def elements? : Toml → Option (List Toml)
  | .array items => some items
  | .tables items => some (items.reverse.map (.table .header))
  | _ => none

/-- A name: a string, or a table with that one key and nothing in it. -/
def name? : Toml → Option String
  | .string s => some s
  | .table _ [(key, .array [])] => some key
  | .table _ [(key, .table _ [])] => some key
  | _ => none

/-- A table of strings, in alphabetical order of its keys. -/
def stringTable? (v : Toml) : Option (List (String × String)) := do
  let entries ← (← v.fields?).mapM fun (key, v) => do return (key, ← v.string?)
  return entries.mergeSort fun a b => a.1 ≤ b.1

/-- A style of row limits by its name. -/
def limitStyle? (v : Toml) : Option LimitStyle := do
  let name ← v.name?
  [("limit-offset", .limitOffset), ("offset-limit", .offsetLimit), ("top", .top true),
    ("fetch-first", .fetchFirst), ("limit-only", .limitOnly)].lookup name

/-- What becomes of unknown functions, by its name. -/
def unknownFunctions? (v : Toml) : Option UnknownFunctions := do
  let name ← v.name?
  [("pass-through", .accept), ("reject", .reject)].lookup name

end Toml

/-! ## Documents -/

/-- The keys of the defaults. -/
def Defaults.keys : List String := ["read", "write", "pretty", "indent", "identify"]

/-- The defaults with one more key. -/
def Defaults.set (d : Defaults) (key : String) (v : Toml) : Option Defaults :=
  match key with
  | "read" => do return { d with read := some (← v.string?) }
  | "write" => do return { d with write := some (← v.string?) }
  | "pretty" => do return { d with pretty := ← v.boolean? }
  | "indent" => do return { d with indent := some (← v.nat?) }
  | "identify" => do return { d with identify := ← v.boolean? }
  | _ => none

/-- The keys of a custom dialect. -/
def CustomDialect.keys : List String :=
  ["name", "base", "identifier_quote", "limit_style", "unknown_functions", "reserved",
    "function_aliases", "function_names"]

/-- A custom dialect with one more key. -/
def CustomDialect.set (c : CustomDialect) (key : String) (v : Toml) : Option CustomDialect :=
  match key with
  | "name" => do return { c with name := ← v.string? }
  | "base" => do return { c with base := some (← v.string?) }
  | "identifier_quote" => do return { c with nameQuote := some (← v.string?) }
  | "limit_style" => do return { c with limitStyle := some (← v.limitStyle?) }
  | "unknown_functions" => do return { c with unknownFunctions := some (← v.unknownFunctions?) }
  | "reserved" => do return { c with reserved := ← v.strings? }
  | "function_aliases" => do return { c with functionAliases := ← v.stringTable? }
  | "function_names" => do return { c with functionNames := ← v.stringTable? }
  | _ => none

namespace Settings

/-- The settings with one more key. -/
def set (s : Settings) (key : String) (v : Toml) : Option Settings :=
  match key with
  | "defaults" => do
    let fields ← v.record? Defaults.keys
    let defaults ← fields.foldlM (fun d (key, v) => Defaults.set d key v) {}
    return { s with defaults }
  | "dialect" => do
    let dialects ← (← v.elements?).mapM fun element => do
      let fields ← element.record? CustomDialect.keys
      fields.foldlM (fun c (key, v) => CustomDialect.set c key v) {}
    return { s with dialects }
  | _ => none

/-- The settings of a TOML document. -/
def parse (text : String) : Except Fault Settings :=
  match (do (← Toml.read? text).foldlM (fun s (key, v) => set s key v) ({} : Settings)) with
  | some s => .ok s
  | none => .error (.settings .malformed)

end Settings

/-! ## Custom dialects -/

/-- The quotes that a name of them means. -/
def quotesOf? (quote : String) : Option (Char × Char) :=
  [("\"", ('"', '"')), ("`", ('`', '`')), ("[", ('[', ']')), ("[]", ('[', ']'))].lookup quote

namespace CustomDialect

/-- The dialect on top of `base`. -/
def build (c : CustomDialect) (base : Dialect) : Except Fault Dialect := do
  if Text.trim c.name == "" then throw (.settings .namelessDialect)
  let d := base.named c.name
  let d ←
    match c.nameQuote with
    | none => pure d
    | some quote =>
      match quotesOf? quote with
      | some (left, right) => pure (d.quoteNames left right)
      | none => throw (.settings (.badQuote c.name quote))
  let d := (c.limitStyle.map d.limitStyle).getD d
  let d :=
    match c.unknownFunctions with
    | some policy => { d with reading.unknownFunctions := policy }
    | none => d
  let d := d.reserve c.reserved
  let d := c.functionAliases.foldl
    (fun d (name, canonical) => d.aliasFunction name (.rename (Text.upper canonical))) d
  return c.functionNames.foldl
    (fun d (canonical, rendered) => d.renameFunction canonical rendered) d

/-- The base of a custom dialect: the latest of those `built` before it that has its name, else one
of the registry. -/
def findBase (c : CustomDialect) (r : Registry) (built : List Dialect) : Except Fault Dialect :=
  let name := c.base.getD "ansi"
  match built.find? fun d => Text.sameWord d.name (Text.trim name) with
  | some d => .ok d
  | none => r.resolve name

/-- Builds custom dialects behind those of `built`, the latest first. -/
def buildAll (r : Registry) (built : List Dialect) : List CustomDialect →
    Except Fault (List Dialect)
  | [] => .ok built.reverse
  | c :: rest => do
    let base ← c.findBase r built
    let d ← c.build base
    buildAll r (d :: built) rest

end CustomDialect

/-- The registry with all custom dialects, and their names as written. -/
def Settings.registerAll (s : Settings) (r : Registry) : Except Fault (Registry × List String) := do
  let built ← CustomDialect.buildAll r [] s.dialects
  return (built.foldl (fun r d => r.register d.name d) r, built.map Dialect.name)

end SqlDialects
