/-
  QueryLoom/Failure.lean
  ======================
  **Why a command fails**, as a message and the reasons behind it, the outermost first.  A
  reason that comes from outside, from a file system or from the grammar of a format, has
  no wording of its own and is the last one.
-/
import QueryLoom.Config.Basic

namespace QueryLoom

/-- A reason behind a failure. -/
inductive Reason where
  | said (text : String)
  | outside
deriving DecidableEq, Repr

/-- Why a command fails. -/
inductive Failure where
  | compile (e : CompileError)
  | config (e : Config.ReadError)
  | versionOption (e : Version.ReadError)
  | server (name : String) (e : Version.ReadError)
  | configFile (path : String)
  | queryFile (path : String)
  | queryText (path : String)
deriving DecidableEq

/-- The message of an error and the reasons behind it. -/
def Version.ReadError.chain (e : Version.ReadError) : List Reason :=
  .said e.message :: e.cause?.toList.map fun c => .said c.message

/-- Why an option is wrong. -/
def Config.OptionError.reason : Config.OptionError → Reason
  | malformed => .outside
  | unquotedVersion n => .said ("server version " ++ n ++ " must be quoted, eg \"" ++ n ++ "\"")
  | notAVersion shown => .said ("expected a version string, found " ++ shown)

/-- The message of an error. -/
def Config.ReadError.message : Config.ReadError → String
  | notYaml => "Failed to parse configuration yaml"
  | reference text _ => "Failed to process config string " ++ text
  | options _ => "Failed to parse compiler configuration options"

/-- The reason behind an error. -/
def Config.ReadError.reason : Config.ReadError → Reason
  | notYaml => .outside
  | reference _ e => .said e.message
  | options e => e.reason

namespace Failure

/-- The message of a failure. -/
def message : Failure → String
  | compile e => e.message
  | config e => e.message
  | versionOption _ => "Failed to parse 'server_version' configuration option"
  | server name _ => "Failed to determine dialect of server \"" ++ name ++ "\""
  | configFile path => "Failed to read config file " ++ path
  | queryFile path => "Failed to read query file " ++ path
  | queryText path => "Failed to parse query file " ++ path

/-- The reasons behind a failure. -/
def reasons : Failure → List Reason
  | compile _ => []
  | config e => [e.reason]
  | versionOption e => e.chain
  | server _ e => e.chain
  | configFile _ | queryFile _ | queryText _ => [.outside]

end Failure

end QueryLoom
