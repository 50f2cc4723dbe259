import SqlDialects.Position

/-!
# What can go wrong

* `LexicalFault` : a text that ends inside a token;
* `SettingsFault` : a settings file that cannot be used;
* `Fault` : every way in which an operation fails; none of them changes a registry;
* `Fault.message`, `Fault.kind`, `Fault.position?` : its wording, its short name, its place.
-/

namespace SqlDialects

/-- A token whose end is missing. -/
inductive LexicalFault where
  | openComment
  | openString
  /-- A quoted name without its closing character. -/
  | openName (close : Char)
  | openDollarString
deriving DecidableEq, Repr

/-- The wording of a lexical fault. -/
def LexicalFault.message : LexicalFault → String
  | .openComment => "unterminated block comment"
  | .openString => "unterminated string literal"
  | .openName close => s!"unterminated quoted identifier (missing '{close}')"
  | .openDollarString => "unterminated dollar-quoted string"

/-- Why a settings file cannot be used. -/
inductive SettingsFault where
  /-- The text is not a settings file. -/
  | malformed
  /-- A custom dialect has a blank name. -/
  | namelessDialect
  /-- A custom dialect quotes names by something that is not a quote. -/
  | badQuote (dialect quote : String)
deriving DecidableEq, Repr

/-- The wording of a settings fault. -/
def SettingsFault.message : SettingsFault → String
  | .malformed => "malformed settings"
  | .namelessDialect => "dialect without a name"
  | .badQuote dialect quote => s!"dialect '{dialect}': unsupported identifier_quote '{quote}'"

/-- Every way in which an operation fails. -/
inductive Fault where
  /-- No dialect has this name; a close name may be suggested. -/
  | unknownDialect (name : String) (suggestion : Option String)
  /-- The text ends inside a token. -/
  | lexical (cause : LexicalFault) (position : Position)
  /-- The token at `position` is not one of those expected there. -/
  | unexpected (position : Position) (expected : List String) (found : String)
  /-- The dialect has no way to write the construct. -/
  | unsupported (construct dialect : String) (position : Option Position)
  | settings (cause : SettingsFault)
  /-- A file that cannot be read. -/
  | file (path reason : String)
deriving DecidableEq, Repr

namespace Fault

/-- How a list of expectations is worded. -/
def expectation : List String → String
  | [] => "a valid token"
  | [one] => one
  | many => "one of " ++ String.intercalate ", " many

/-- The wording of a fault. -/
def message : Fault → String
  | unknownDialect name none => s!"Unsupported dialect: '{name}'"
  | unknownDialect name (some other) => s!"Unsupported dialect: '{name}'. Did you mean '{other}'?"
  | lexical cause p => s!"Syntax error at {p.describe}: {cause.message}"
  | unexpected p expected found =>
    s!"Syntax error at {p.describe}: expected {expectation expected}, found {found}"
  | unsupported construct dialect _ => s!"Cannot express {construct} in dialect {dialect}"
  | settings cause => s!"Configuration error: {cause.message}"
  | file path reason => s!"IO error: {path}: {reason}"

/-- The short name of a fault's kind. -/
def kind : Fault → String
  | unknownDialect .. => "unknown_dialect"
  | lexical .. => "tokenize"
  | unexpected .. => "syntax"
  | unsupported .. => "unsupported_construct"
  | settings _ => "config"
  | file .. => "io"

/-- Where the fault lies, if it has a place. -/
def position? : Fault → Option Position
  | lexical _ p => some p
  | unexpected p _ _ => some p
  | unsupported _ _ p => p
  | _ => none

/-- Gives a place to a construct that cannot be written and has none yet. -/
def locate (p : Option Position) : Fault → Fault
  | unsupported construct dialect none => unsupported construct dialect p
  | other => other

end Fault

end SqlDialects
