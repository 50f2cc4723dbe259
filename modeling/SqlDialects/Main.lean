import SqlDialects.Cli

/-!
# The program

`main` collects the arguments, the files that they name and the standard input, runs the command
line on them, and prints what it gives.
-/

namespace SqlDialects

/-- The contents of a file, or why it cannot be read. -/
def readPath (path : String) : IO (Except String String) := do
  try
    return .ok (← IO.FS.readFile path)
  catch e =>
    match e with
    | .noFileOrDirectory .. => return .error "No such file or directory (os error 2)"
    | other => return .error other.toString

/-- The file of statements that an invocation names. -/
def Invocation.sqlFile? (i : Invocation) : Option String :=
  let source :=
    match i.command with
    | .transpile source .. | .validate source _ | .parse source _ => source
    | .dialects => .stdin
  match source with
  | .file path => some path
  | _ => none

/-- Whether an invocation reads the standard input. -/
def Invocation.readsStdin (i : Invocation) : Bool :=
  match i.command with
  | .transpile .stdin .. | .validate .stdin _ | .parse .stdin _ => true
  | _ => false

/-- The directory of settings. -/
def configDirectory : IO (Option String) := do
  match ← IO.getEnv "XDG_CONFIG_HOME", ← IO.getEnv "HOME" with
  | some directory, home =>
    if directory.toList.head? == some '/' then return some directory
    return home.map (· ++ "/.config")
  | none, home => return home.map (· ++ "/.config")

/-- What an invocation reads. -/
def surroundings (i : Invocation) : IO Surroundings := do
  let path := (← configDirectory).map configPath
  let standard ← path.mapM readPath
  let files ← (i.config.toList ++ i.sqlFile?.toList).mapM fun p => do
    return (p, ← readPath p)
  let files := files ++ (path.toList.zip standard.toList)
  let stdin ← if i.readsStdin then (← IO.getStdin).readToEnd else pure ""
  let present := standard.any fun text => text.isOk
  return {
    file := fun p => (files.lookup p).getD (.error "No such file or directory (os error 2)")
    defaultConfig := if present then path else none
    stdin }

/-- Runs the command line, prints what it gives and returns its exit code. -/
def runArguments (args : List String) : IO UInt32 := do
  let named ← IO.getEnv configVariable
  let outcome ←
    match Invocation.ofArgs args named with
    | .ok i => i.run <$> surroundings i
    | .error e => pure (Cli.interrupted e)
  IO.print outcome.stdout
  IO.eprint outcome.stderr
  return outcome.exit.toUInt32

end SqlDialects

/-- The program is the command line. -/
def main (args : List String) : IO UInt32 := SqlDialects.runArguments args
