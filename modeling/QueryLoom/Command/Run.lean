/-
  QueryLoom/Command/Run.lean
  ==========================
  **Running a command** on the files and the environment that it is given.  What is printed
  and what is logged are values.
-/
import QueryLoom.Command.Arguments
import QueryLoom.Json.Printer
import QueryLoom.Query.Yaml
import QueryLoom.Session

namespace QueryLoom

/-- What a command can see: the texts of files and the values of variables. -/
structure Surroundings where
  file? : String → Option String
  env? : String → Option String

namespace Command

/-- The ending of a file's name: what comes after the last dot, unless the name starts with
    that dot. -/
def ending? (path : String) : Option String :=
  let name := (path.toList.reverse.takeWhile (· != '/'))
  match Text.splitOnce '.' name with
  | some (ending, stem) =>
    if stem.isEmpty || name == ['.', '.'] then none else some (String.ofList ending.reverse)
  | none => none

/-- Whether a file holds YAML; any other file holds JSON. -/
def holdsYaml (path : String) : Bool := ending? path == some "yml" || ending? path == some "yaml"

/-- A computation that logs, and keeps its log when it fails. -/
abbrev Logged := ExceptT Failure (StateM (List LogEntry))

/-- Adds entries to the log. -/
def log (entries : List LogEntry) : Logged Unit := modify (· ++ entries)

/-- The configuration of a command. -/
def loadConfig (w : Surroundings) (c : Command) : Logged Config := do
  let config ← match c.config? with
    | none => pure {}
    | some path =>
      log [⟨.info, "Loading configuration from " ++ path ++ "..."⟩]
      match w.file? path with
      | none => throw (.configFile path)
      | some text => match Config.ofText w.env? text with
        | .ok config => pure config
        | .error e => throw (.config e)
  return { config with serverVersion? := c.serverVersion?.orElse fun _ => config.serverVersion? }

/-- The query in a file. -/
def loadQuery (w : Surroundings) (path : String) : Except Failure Query :=
  match w.file? path with
  | none => .error (.queryFile path)
  | some text =>
    match if holdsYaml path then Query.ofYaml? text else Query.parse? text with
    | some q => .ok q
    | none => .error (.queryText path)

/-- What a command prints. -/
def output (w : Surroundings) (c : Command) : Logged String := do
  let config ← c.loadConfig w
  let (session, entries) ← (Session.ofConfig config : Except _ (Session Unit × _))
  log entries
  log [⟨.info, "Compiling for Firebird " ++ session.caps.version.write⟩]
  match c with
  | capabilities .. => return session.caps.toJson.pretty
  | compile path _ _ =>
    let q ← loadQuery w path
    let outcome := session.compile q ()
    log outcome.log
    match outcome.result with
    | .ok statement => return statement.toJson.pretty
    | .error e => throw (.compile e)

/-- Runs a command: what it prints or why it fails, and what it logs. -/
def run (w : Surroundings) (c : Command) : Except Failure String × List LogEntry :=
  (c.output w).run.run []

end Command

end QueryLoom
