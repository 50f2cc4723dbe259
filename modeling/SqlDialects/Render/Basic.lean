import SqlDialects.Dialect.Basic
import SqlDialects.Fault
import SqlDialects.Token.Lexer

/-!
# Writing

* `Layout` : the options of the output;
* `Target` : the dialect and the layout that a tree is written in;
* `Render` : a function from a target and the highest bind ordinal written so far to a result and
  the new highest ordinal, or a fault;
* the texts of names and strings, and the layout of clauses, lists and blocks.
-/

namespace SqlDialects

/-- The options of the output. -/
structure Layout where
  /-- One clause a line, with lists indented. -/
  pretty : Bool := false
  /-- The blanks of one level of indentation. A machine word bounds their number, and the memory the length of
  a line; no bound is set here. -/
  indent : Nat := 2
  /-- Quote every name, not only those that need it. -/
  identify : Bool := false
deriving DecidableEq, Repr

/-- What a tree is written in. -/
structure Target where
  dialect : Dialect
  layout : Layout := {}
  /-- How a bare parameter is written, given its ordinal. -/
  bare : Nat → String := fun _ => "?"

namespace Target

/-! ## Layout -/

/-- What stands between clauses. -/
def separator (t : Target) : String := if t.layout.pretty then "\n" else " "

/-- What stands between the elements of a list that may span lines. -/
def comma (t : Target) : String := if t.layout.pretty then ",\n" else ", "

/-- The clauses that are not empty, with separators between them. -/
def clauses (t : Target) (parts : List String) : String :=
  String.intercalate t.separator (parts.filter (· != ""))

/-- Indents the lines of a text by `pad`. A line feed inside quotes belongs to a value and starts
no line. `closing` is the character that ends the current quotes, and `fresh` tells whether a line
starts here. -/
def indentFrom (pad : List Char) (quote : Char × Char) (closing : Option Char) (fresh : Bool) :
    List Char → List Char
  | [] => []
  | c :: cs =>
    let lead := if fresh && c != '\n' then pad else []
    match closing with
    | some close =>
      if c == close then
        match cs with
        | d :: ds =>
          if d == close then lead ++ c :: close :: indentFrom pad quote (some close) false ds
          else lead ++ c :: indentFrom pad quote none false (d :: ds)
        | [] => lead ++ [c]
      else lead ++ c :: indentFrom pad quote (some close) false cs
    | none =>
      if c == '\'' then lead ++ c :: indentFrom pad quote (some '\'') false cs
      else if c == quote.1 then lead ++ c :: indentFrom pad quote (some quote.2) false cs
      else lead ++ c :: indentFrom pad quote none (c == '\n') cs

/-- The lines of a text one level further in. -/
def indent (t : Target) (text : String) : String :=
  let pad := List.replicate t.layout.indent ' '
  .ofList (indentFrom pad t.dialect.writing.nameQuote none true text.toList)

/-- A keyword and a list behind it, on lines of its own in pretty output. -/
def listClause (t : Target) (keyword : String) (items : List String) : String :=
  if t.layout.pretty then s!"{keyword}\n{t.indent (String.intercalate t.comma items)}"
  else s!"{keyword} {String.intercalate t.comma items}"

/-- A text in parentheses, on lines of its own in pretty output. -/
def block (t : Target) (text : String) : String :=
  if t.layout.pretty then s!"(\n{t.indent text}\n)" else s!"({text})"

/-! ## Names and strings -/

/-- Whether `text` would not be read as one unreserved word. -/
def needsQuotes (t : Target) (text : String) : Bool :=
  let rules := t.dialect.lexical
  match text.toList with
  | [] => true
  | c :: cs =>
    !Lexer.startsWord rules c || !cs.all (Lexer.continuesWord rules) || rules.isReserved text

/-- `cs` with every `c` written twice. -/
def doubled (c : Char) (cs : List Char) : List Char :=
  cs.flatMap fun d => if d == c then [c, c] else [d]

/-- A name in the quotes of the dialect. -/
def quote (t : Target) (text : String) : String :=
  let (left, right) := t.dialect.writing.nameQuote
  .ofList (left :: doubled right text.toList ++ [right])

/-- A name, quoted where it has to be. -/
def name (t : Target) (n : Name) : String :=
  if n.quoted || t.layout.identify || t.needsQuotes n.text then t.quote n.text else n.text

/-- Names with commas between them. -/
def names (t : Target) (ns : List Name) : String := String.intercalate ", " (ns.map t.name)

/-- Names with dots between them. -/
def path (t : Target) (ns : List Name) : String := String.intercalate "." (ns.map t.name)

/-- Names in parentheses behind a blank, or nothing for no names. -/
def columns (t : Target) (ns : List Name) : String :=
  if ns.isEmpty then "" else s!" ({t.names ns})"

/-- A string in single quotes. -/
def string (t : Target) (value : String) : String :=
  let cs := doubled '\'' value.toList
  let cs := if t.dialect.lexical.backslashEscapes then doubled '\\' cs else cs
  .ofList ('\'' :: cs ++ ['\''])

/-- The word between a table and its alias. -/
def aliasWord (t : Target) : String := if t.dialect.writing.tableAliasAs then " AS " else " "

/-- The name of a function that is called with unchanged arguments. -/
def functionName (t : Target) (canonical : String) : String :=
  match t.dialect.spelling? canonical with
  | some (.rename name) => name
  | _ => canonical

/-- A data type. Arguments are left out where the name has some of its own or stands for another
type. -/
def dataType (t : Target) (type : DataType) : String :=
  match type.kind? with
  | some kind =>
    let name := t.dialect.typeName kind
    let params := type.params
    if params.isEmpty || name.toList.contains '(' || t.dialect.writing.foldedTypes.contains kind
    then name
    else
      let list := String.intercalate ", " (params.map toString)
      s!"{name}({list})"
  | none =>
    match type with
    | .custom spelling => spelling
    | _ => ""

end Target

/-! ## The monad -/

/-- A text, or another value, that is written in a target. The number is the highest bind ordinal
written so far. -/
def Render (α : Type) : Type := Target → Nat → Except Fault (α × Nat)

namespace Render

variable {α β : Type}

instance : Monad Render where
  pure a := fun _ n => .ok (a, n)
  bind p f := fun t n =>
    match p t n with
    | .ok (a, n) => f a t n
    | .error e => .error e

/-- The target. -/
def target : Render Target := fun t n => .ok (t, n)

/-- Fails because the dialect cannot say `construct`. -/
def unsupported (construct : String) : Render α := fun t _ =>
  .error (.unsupported construct t.dialect.name none)

/-- Fails unless the dialect can say `c`. -/
def require (c : Construct) : Render Unit := do
  unless (← target).dialect.supports c do unsupported c.describe

/-- Notes that the bind ordinal `k` is written next, and tells whether a bare parameter here would
bind `k`: whether `k` follows the highest ordinal so far. Ordinals have 32 bits where they are read. A counter
of that width overflows behind `2 ^ 32 - 1`: it stops the program if overflow is checked, and wraps to zero,
which is the ordinal of no bare parameter, if not. Here it has no bound, and nothing follows that ordinal. -/
def bindInSequence (k : Nat) : Render Bool := fun _ n => .ok (k == n + 1, max n k)

/-- The result of `p`, or of `q` from the same state if `p` fails. -/
def orElse (p q : Render α) : Render α := fun t n =>
  match p t n with
  | .ok r => .ok r
  | .error _ => q t n

/-- The result of a text in a target, with no bind ordinal written before. -/
def run (p : Render α) (t : Target) : Except Fault α := (p t 0).map Prod.fst

end Render

end SqlDialects
