import SqlDialects.Grammar.Parser

/-!
# Reading data types

* `Parser.dataType` : a type name of one or several words, with optional arguments.

A name goes on as long as some spelling of the dialect continues it. A spelling may include its
arguments; a name without a meaning is kept as written.
-/

namespace SqlDialects.Parser

/-- The words of a type name: in upper case, and as written. -/
structure TypeWords where
  key : String
  written : String

/-- The words with the next token, if some spelling of a type starts with them. -/
def moreTypeWords (names : Table String TypeKind) (w : TypeWords) : Parser (Option TypeWords) := do
  let t ← peek
  let key := s!"{w.key} {Text.upper t.text}"
  let start := (key ++ " ").toList
  if t.isBareWord && names.keys.any (fun n => n == key || start.isPrefixOf n.toList) then
    let _ ← advance
    return some ⟨key, s!"{w.written} {t.text}"⟩
  return none

/-- `s` as the contents of a string between single quotes. -/
def doubleQuotes (s : String) : String :=
  .ofList (s.toList.flatMap fun c => if c == '\'' then ['\'', '\''] else [c])

/-- An argument of a type, as written. -/
def typeArg : Parser String := do
  let t ← peek
  match t.kind with
  | .number | .word | .keyword =>
    let _ ← advance
    return t.text
  | .string =>
    let _ ← advance
    return s!"'{doubleQuotes t.text}'"
  | _ =>
    expectHere "type argument"
    unexpected

/-- The numbers that all of `args` write, if they do and fit 64 bits. -/
def numericArgs (args : List String) : Option (List Nat) :=
  args.mapM (Text.natOf? (Nat.pow 2 64))

/-- The type of the words `w` with the arguments `args`. -/
def typeOf (names : Table String TypeKind) (w : TypeWords) (args : List String) : DataType :=
  let closed := Text.upper (String.intercalate "," args)
  let spaced := String.intercalate ", " args
  let full := s!"{w.key}({closed})"
  match (if args.isEmpty then none else names.get? full) with
  | some kind => kind.withParams []
  | none =>
    match names.get? w.key with
    | some kind => kind.withParams ((numericArgs args).getD [])
    | none =>
      if args.isEmpty then .custom w.written
      else .custom s!"{w.written}({spaced})"

/-- A data type. -/
def dataType : Parser DataType := do
  let names := (← rules).typeNames
  let first ← peek
  unless first.isBareWord do
    expectHere "data type"
    unexpected
  let _ ← advance
  let words ← iterate (moreTypeWords names) ⟨Text.upper first.text, first.text⟩
  let args ← optionalList (eatSymbol "(") (do
    let args ← commaSeparated typeArg
    expectSymbol ")"
    return args)
  return typeOf names words args

end SqlDialects.Parser
