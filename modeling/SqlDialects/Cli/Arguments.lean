/-!
# Arguments of a command line

* `Flag` : a flag with its names, and whether a value follows it;
* `Words` : what the words among the arguments are;
* `Arguments` : the flags and words that were given;
* `Arguments.scan` : the arguments that a list of them gives.

The value of a flag may be attached, `--name=value`, `-nvalue` or `-n=value`, or be the next
argument unless that looks like a flag. Short flags without values may share a dash. Each flag may
come once. Everything behind `--` is a word.
-/

namespace SqlDialects

/-- A flag of a command line. -/
structure Flag where
  /-- Its name behind two dashes. -/
  long : String
  /-- Its name behind one. -/
  short : Option Char := none
  /-- Whether a value follows it. -/
  valued : Bool := true
  /-- Whether its value may be empty. -/
  emptyValue : Bool := true
  /-- The values that it admits, if they are fixed. -/
  choices : List String := []
deriving DecidableEq, Repr

/-- What the words among the arguments are. -/
inductive Words where
  /-- The first one is a command, and what follows it is left to the command. -/
  | command
  /-- There are at most this many. -/
  | upTo (n : Nat)
deriving DecidableEq, Repr

/-- What ends the reading of arguments early. -/
inductive Interrupt where
  /-- The arguments make no sense. -/
  | misuse
  /-- The usage is asked for. -/
  | help
  /-- The version is asked for. -/
  | version
deriving DecidableEq, Repr

/-- The flags and words that were given. -/
structure Arguments where
  /-- The flags by their long names, with their values. -/
  flags : List (String × String) := []
  words : List String := []
  /-- The arguments behind the first word, where that word is a command. -/
  rest : List String := []
deriving DecidableEq, Repr

namespace Arguments

/-- The value of a flag. -/
def value? (a : Arguments) (long : String) : Option String := a.flags.lookup long

/-- Whether a flag was given. -/
def has (a : Arguments) (long : String) : Bool := (a.value? long).isSome

/-- The arguments with one flag more. -/
def add (a : Arguments) (f : Flag) (value : String) : Except Interrupt Arguments :=
  if f.long == "help" then .error .help
  else if f.long == "version" then .error .version
  else if a.has f.long then .error .misuse
  else if f.valued && value == "" && !f.emptyValue then .error .misuse
  else if !f.choices.isEmpty && !f.choices.contains value then .error .misuse
  else .ok { a with flags := a.flags ++ [(f.long, value)] }

/-- What one argument of flags leaves open: the flag that takes the next argument as its value. -/
abbrev Open := Arguments × Option Flag

/-- A long flag, without its dashes. -/
def addLong (known : List Flag) (a : Arguments) (text : List Char) : Except Interrupt Open := do
  let name := text.takeWhile (· != '=')
  match known.find? fun f => f.long.toList == name, text.drop name.length with
  | some f, [] =>
    if f.valued then return (a, some f)
    return (← a.add f "", none)
  | some f, _ :: value =>
    if f.valued then return (← a.add f (.ofList value), none)
    throw .misuse
  | none, _ => throw .misuse

/-- The short flags of one argument, without its dash. -/
def addShort (known : List Flag) (a : Arguments) : List Char → Except Interrupt Open
  | [] => .ok (a, none)
  | c :: cs =>
    match known.find? fun f => f.short == some c with
    | none => .error .misuse
    | some f =>
      if f.valued then
        match cs with
        | [] => .ok (a, some f)
        | '=' :: value => (a.add f (.ofList value)).map fun a => (a, none)
        | value => (a.add f (.ofList value)).map fun a => (a, none)
      else
        match a.add f "" with
        | .ok a => addShort known a cs
        | .error e => .error e

/-- Whether an argument looks like flags. -/
def isFlag : List Char → Bool
  | '-' :: _ :: _ => true
  | _ => false

/-- The arguments behind those of `a`. `waiting` is the flag whose value is next. -/
def scanFrom (known : List Flag) (words : Words) (a : Arguments) (waiting : Option Flag) :
    List String → Except Interrupt Arguments
  | [] => if waiting.isSome then .error .misuse else .ok a
  | arg :: args =>
    match waiting, arg.toList with
    | some f, text =>
      if isFlag text then .error .misuse
      else
        match a.add f arg with
        | .ok a => scanFrom known words a none args
        | .error e => .error e
    | none, ['-', '-'] =>
      match words with
      | .command => .error .misuse
      | .upTo n =>
        if a.words.length + args.length ≤ n then .ok { a with words := a.words ++ args }
        else .error .misuse
    | none, '-' :: '-' :: text =>
      match addLong known a text with
      | .ok (a, waiting) => scanFrom known words a waiting args
      | .error e => .error e
    | none, '-' :: c :: text =>
      match addShort known a (c :: text) with
      | .ok (a, waiting) => scanFrom known words a waiting args
      | .error e => .error e
    | none, _ =>
      match words with
      | .command => .ok { a with words := [arg], rest := args }
      | .upTo n =>
        if a.words.length < n then
          scanFrom known words { a with words := a.words ++ [arg] } none args
        else .error .misuse

/-- The arguments of a list. -/
def scan (known : List Flag) (words : Words) (args : List String) : Except Interrupt Arguments :=
  scanFrom known words {} none args

end Arguments

end SqlDialects
