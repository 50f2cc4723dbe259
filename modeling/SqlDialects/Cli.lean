import SqlDialects.Cli.Arguments
import SqlDialects.Settings
import SqlDialects.Transpile
import SqlDialects.Tree.Encoding

/-!
# The command line

* `Invocation` : what a command line asks for;
* `Invocation.ofArgs` : the invocation of a list of arguments;
* `Surroundings` : what an invocation reads: files and the standard input;
* `Invocation.run` : the output and the exit code of an invocation;
* `Cli.run` : the same from the arguments.
-/

namespace SqlDialects

/-! ## Invocations -/

/-- The form of the output. -/
inductive OutputFormat where
  | text
  | json
deriving DecidableEq, Repr

/-- Where a command finds its statements. -/
inductive SqlSource where
  | inline (sql : String)
  | file (path : String)
  | stdin
deriving DecidableEq, Repr

/-- A command. -/
inductive Command where
  | transpile (source : SqlSource) (read write : Option String) (pretty identify : Bool)
  | validate (source : SqlSource) (dialect : Option String)
  | dialects
  | parse (source : SqlSource) (dialect : Option String)
deriving DecidableEq, Repr

/-- What a command line asks for. -/
structure Invocation where
  /-- The settings file that was named. -/
  config : Option String
  format : OutputFormat
  command : Command
deriving DecidableEq, Repr

/-- The flags of every command. -/
def commonFlags : List Flag :=
  [{ long := "config", emptyValue := false }, { long := "format", choices := ["text", "json"] },
    { long := "verbose", short := some 'v', valued := false },
    { long := "help", short := some 'h', valued := false }]

/-- The flag that names a file of statements. -/
def fileFlag : Flag := { long := "file", short := some 'f', emptyValue := false }

/-- The flag that names the dialect of a text. -/
def dialectFlag : Flag := { long := "dialect", short := some 'd' }

/-- The flags of a command, and how many words it takes. -/
def commandShape? (command : String) : Option (List Flag × Nat) :=
  match command with
  | "transpile" =>
    some ([fileFlag, { long := "read", short := some 'r' }, { long := "write", short := some 'w' },
      { long := "pretty", short := some 'p', valued := false },
      { long := "identify", valued := false }], 1)
  | "validate" => some ([fileFlag, dialectFlag], 1)
  | "dialects" => some ([], 0)
  | "parse" => some ([fileFlag, dialectFlag], 1)
  | _ => none

/-- The source that the words and the flag of a command name. -/
def SqlSource.ofArgs (a : Arguments) : Except Interrupt SqlSource :=
  match a.words, a.value? "file" with
  | [], none => .ok .stdin
  | [], some path => .ok (.file path)
  | [sql], none => .ok (.inline sql)
  | _, _ => .error .misuse

/-- The command of the given name. -/
def Command.ofArgs (command : String) (a : Arguments) : Except Interrupt Command := do
  match command with
  | "transpile" =>
    return .transpile (← SqlSource.ofArgs a) (a.value? "read") (a.value? "write") (a.has "pretty")
      (a.has "identify")
  | "validate" => return .validate (← SqlSource.ofArgs a) (a.value? "dialect")
  | "parse" => return .parse (← SqlSource.ofArgs a) (a.value? "dialect")
  | _ => return .dialects

/-- What a request for the usage of the commands `names` gives: there is one for the whole program
and one for each command. -/
def usageOf : List String → Interrupt
  | [] => .help
  | [command] => if command == "help" || (commandShape? command).isSome then .help else .misuse
  | _ => .misuse

/-- The invocation of a list of arguments. `named` is the settings file where no flag names one. A
common flag behind the command takes precedence over one before it. -/
def Invocation.ofArgs (args : List String) (named : Option String) :
    Except Interrupt Invocation := do
  let version : Flag := { long := "version", short := some 'V', valued := false }
  let outer ← Arguments.scan (version :: commonFlags) .command args
  match outer.words with
  | [] => throw .misuse
  | command :: _ =>
    if command == "help" then throw (usageOf outer.rest)
    let some (flags, words) := commandShape? command | throw .misuse
    let inner ← Arguments.scan (flags ++ commonFlags) (.upTo words) outer.rest
    let config (a : Arguments) : Option String := a.value? "config" <|> named
    if config outer == some "" || config inner == some "" then throw .misuse
    let common (long : String) : Option String := inner.value? long <|> outer.value? long
    let format := if common "format" == some "json" then .json else .text
    return ⟨common "config" <|> named, format, ← Command.ofArgs command inner⟩

/-! ## Runs -/

/-- What an invocation reads. -/
structure Surroundings where
  /-- The contents of a file, or why it cannot be read. -/
  file : String → Except String String
  /-- The settings file that is used if it exists and no other is named. -/
  defaultConfig : Option String
  stdin : String

/-- What a run leaves behind. -/
structure Outcome where
  exit : Nat := 0
  stdout : String := ""
  stderr : String := ""
deriving DecidableEq, Repr

/-- The outcome of a run that a message ends. -/
def Outcome.failure (message : String) : Outcome := { exit := 1, stderr := s!"Error: {message}\n" }

/-- The environment variable that names a settings file. -/
def configVariable : String := "SQLINGUAL_CONFIG"

/-- The settings file in a directory of settings. -/
def configPath (directory : String) : String := directory ++ "/sqlingual/config.toml"

namespace Surroundings

/-- The settings of the file `path`. -/
def settingsOf (s : Surroundings) (path : String) : Except Fault Settings :=
  match s.file path with
  | .ok text => Settings.parse text
  | .error reason => .error (.file path reason)

/-- The settings of the named file, or of the default file if that exists. -/
def settings (s : Surroundings) (config : Option String) : Except Fault Settings :=
  match config, s.defaultConfig with
  | some path, _ => s.settingsOf path
  | none, some path => s.settingsOf path
  | none, none => .ok {}

/-- The statements of a source. -/
def sql (s : Surroundings) : SqlSource → Except String String
  | .inline text => .ok text
  | .stdin => .ok s.stdin
  | .file path => (s.file path).mapError fun reason => s!"reading {path}: {reason}"

end Surroundings

/-- The value of a flag, or its default. -/
def pick (flag default : Option String) (what : String) : Except String String :=
  match flag <|> default with
  | some value => .ok value
  | none => .error s!"no {what} given and none set in the config"

/-- Texts of statements as the text output has them: one alone as it is, several with a semicolon
behind each. -/
def statementLines (pretty : Bool) : List String → String
  | [only] => only ++ "\n"
  | texts => String.intercalate (if pretty then ";\n\n" else ";\n") texts ++ ";\n"

/-- A JSON value as a line of output. -/
def jsonLine (v : Json) : String := v.pretty ++ "\n"

/-- The JSON form of a verdict. -/
def Verdict.toJson : Verdict → Json
  | valid => .object [("ok", .bool true)]
  | invalid message line column =>
    .object [("ok", .bool false),
      ("error", .object [("message", .string message), ("line", .ofNat? line),
        ("column", .ofNat? column)])]

/-- The text form of a verdict on a text in `dialect`. -/
def Verdict.line (dialect : String) : Verdict → String
  | valid => s!"✓ valid {dialect} SQL\n"
  | invalid message _ _ => s!"✗ {message}\n"

/-- Runs a command with the dialects of a registry. -/
def Command.run (c : Command) (format : OutputFormat) (r : Registry) (defaults : Defaults)
    (s : Surroundings) : Except String Outcome := do
  let ofFault {α : Type} (e : Except Fault α) : Except String α := e.mapError Fault.message
  match c with
  | .transpile source read write pretty identify =>
    let read ← pick read defaults.read "source dialect (--read)"
    let write ← pick write defaults.write "target dialect (--write)"
    let layout := { defaults.layout with
      pretty := pretty || defaults.pretty, identify := identify || defaults.identify }
    let sql ← s.sql source
    let texts ← ofFault (r.transpile sql read write layout)
    match format with
    | .json => return { stdout := jsonLine (.ofList .string texts) }
    | .text => return { stdout := statementLines layout.pretty texts }
  | .validate source dialect =>
    let dialect ← pick dialect defaults.read "dialect (--dialect)"
    let sql ← s.sql source
    let verdict := r.validate sql dialect
    let stdout := match format with
      | .json => jsonLine verdict.toJson
      | .text => verdict.line dialect
    return { exit := if verdict.isValid then 0 else 1, stdout }
  | .dialects =>
    match format with
    | .json => return { stdout := jsonLine (.ofList .string r.names) }
    | .text => return { stdout := String.join (r.names.map (· ++ "\n")) }
  | .parse source dialect =>
    let dialect ← pick dialect defaults.read "dialect (--dialect)"
    let sql ← s.sql source
    let statements ← ofFault (r.parse sql dialect)
    return { stdout := jsonLine (.ofList Statement.toJson statements) }

/-- Runs an invocation. -/
def Invocation.run (i : Invocation) (s : Surroundings) : Outcome :=
  let result : Except String Outcome := do
    let settings ← (s.settings i.config).mapError fun f => s!"loading config: {f.message}"
    let (r, _) ← (settings.registerAll .builtin).mapError
      fun f => s!"registering custom dialects: {f.message}"
    i.command.run i.format r settings.defaults s
  match result with
  | .ok outcome => outcome
  | .error message => .failure message

/-! ## Command lines -/

namespace Cli

/-- How the program is used. -/
def usage : String :=
  "Usage: sqlingual [OPTIONS] <COMMAND>\n\n" ++
    "Commands: transpile, validate, dialects, parse\n" ++
    "Options: --config <FILE>, --format <text|json>, --verbose, --help, --version\n"

/-- The version of the program. -/
def version : String := "sqlingual 0.1.0\n"

/-- The outcome of arguments that ask for no command. -/
def interrupted : Interrupt → Outcome
  | .misuse => { exit := 2, stderr := usage }
  | .help => { stdout := usage }
  | .version => { stdout := version }

/-- Runs a command line. `named` is the value of the environment variable that names a settings
file. -/
def run (args : List String) (named : Option String) (s : Surroundings) : Outcome :=
  match Invocation.ofArgs args named with
  | .ok i => i.run s
  | .error e => interrupted e

end Cli

end SqlDialects
