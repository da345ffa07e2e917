/-
  QueryLoom/Main.lean
  ===================
  **The program.**  It reads the arguments, the files they name and the variables that the
  configuration refers to, runs the command on them, and prints what comes of it.
-/
import QueryLoom.Command.Run

open QueryLoom

namespace QueryLoom.Main

/-- How the program is used. -/
def usage : String := "\n".intercalate
  ["Compiles query trees into Firebird sql", "",
    "Usage: queryloom compile --query FILE [--config FILE] [--server-version VERSION]",
    "       queryloom capabilities [--config FILE] [--server-version VERSION]"]

/-- What is said about arguments that are not a command. -/
def complaint : Command.UsageError → String
  | .help | .nothingAsked => usage
  | .version => "queryloom 0.1.0"
  | .missingRequired => "error: the option --query is required\n" ++ usage
  | .unknownArgument => "error: unexpected argument\n" ++ usage
  | .unknownCommand => "error: unrecognized command\n" ++ usage
  | .badValue => "error: an option has no value or a wrong one\n" ++ usage
  | .repeated => "error: an option is given more than once\n" ++ usage
  | .tooManyValues => "error: a value is given to an option that takes none\n" ++ usage

/-- The exit code for arguments that are not a command. -/
def usageCode : Command.UsageError → UInt32
  | .help | .version => 0
  | _ => 2

/-- The text of a failure with the reasons behind it. -/
def failureText (f : Failure) : String :=
  "\n  caused by: ".intercalate (f.message :: f.reasons.map fun r => match r with
    | .said text => text
    | .outside => "the file cannot be read")

/-- The text of a file, if it can be read. -/
def readFile? (path : String) : IO (Option String) := do
  try return some (← IO.FS.readFile path) catch _ => return none

/-- The values of variables that are set. -/
def environment (names : List String) : IO (List (String × String)) := do
  return (← names.mapM fun name => do
    return (← IO.getEnv name).map fun value => (name, value)).filterMap id

end QueryLoom.Main

open QueryLoom.Main in
/-- Runs the program. -/
def main (args : List String) : IO UInt32 := do
  match Command.ofArguments args with
  | .error e =>
    if usageCode e = 0 then IO.println (complaint e) else IO.eprintln (complaint e)
    return usageCode e
  | .ok command =>
    let query? := match command with
      | .compile path _ _ => some path
      | .capabilities .. => none
    let files ← (command.config?.toList ++ query?.toList).mapM fun path => do
      return (path, ← readFile? path)
    let file? := fun path => (files.find? fun f => f.1 == path).bind (·.2)
    let config := (command.config?.bind file?).bind Yaml.ofText?
    let values ← environment (config.elim [] Config.referencesIn)
    let env? := fun name => (values.find? fun v => v.1 == name).map (·.2)
    let (result, log) := command.run ⟨file?, env?⟩
    for entry in log do
      if entry.level = .info then IO.eprintln entry.line
    match result with
    | .ok text =>
      IO.println text
      return 0
    | .error f =>
      IO.eprintln (failureText f)
      return 1
