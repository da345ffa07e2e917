/-
  QueryLoom/Session.lean
  ======================
  **Sessions**: compiling for one server, with observers that are told of every statement.

  An observer gets a statement as it is logged and the state that all observers share; it
  gives the new state, and it may complain.  A complaint is logged and has no other effect.
  A query that fails is told to nobody.
-/
import QueryLoom.Failure
import QueryLoom.Log

namespace QueryLoom

/-- What an observer does with a statement. -/
abbrev Observer (σ : Type) := LoggedStatement → σ → Option String × σ

/-- Compiling for one server. -/
structure Session (σ : Type) where
  caps : Capabilities
  config : Config
  /-- The observers in the order in which they were registered. -/
  observers : List (Observer σ) := []

namespace Session

variable {σ : Type}

/-- The log entry about the capabilities of a server. -/
def derived (caps : Capabilities) : LogEntry :=
  ⟨.debug, "Derived dialect capabilities for Firebird " ++ caps.version.write ++ ": "
    ++ caps.shown⟩

/-- A session for a version. -/
def ofVersion (v : Version) (config : Config) : Session σ × List LogEntry :=
  let caps := Capabilities.ofVersion v
  ({ caps, config }, [derived caps])

/-- A session for the version of the configuration. -/
def ofConfig (config : Config) : Except Failure (Session σ × List LogEntry) :=
  match config.version with
  | .ok v => .ok (ofVersion v config)
  | .error e => .error (.versionOption e)

/-- A session for what a server says of itself. -/
def ofServer (name : String) (config : Config) : Except Failure (Session σ × List LogEntry) :=
  match Version.ofString? name with
  | .ok v => .ok (ofVersion v config)
  | .error e => .error (.server name e)

/-- The session with one more observer. -/
def observe (s : Session σ) (o : Observer σ) : Session σ :=
  { s with observers := s.observers ++ [o] }

/-- A session as messages show it. -/
def shown (s : Session σ) : String :=
  "CompilerSession \x7b caps: " ++ s.caps.shown ++ ", conf: " ++ s.config.shown
    ++ ", observers: " ++ toString s.observers.length ++ " \x7d"

/-- Tells observers of a statement, one after the other. -/
def notify (statement : LoggedStatement) : List (Observer σ) → σ → List LogEntry × σ
  | [], state => ([], state)
  | o :: rest, state =>
    let (complaint?, state) := o statement state
    let (entries, state) := notify statement rest state
    (complaint?.toList.map (fun c => ⟨.warn, "Statement observer failed: " ++ c⟩) ++ entries,
      state)

/-- What compiling a query leads to. -/
structure Outcome (σ : Type) where
  result : Except CompileError Statement
  log : List LogEntry
  state : σ

/-- Compiles a query and tells the observers if that succeeds. -/
def compile (s : Session σ) (q : Query) (state : σ) : Outcome σ :=
  match QueryLoom.compile s.caps s.config.placeholders q with
  | .error e => ⟨.error e, [⟨.trace, "Rejected " ++ q.kind ++ " query: " ++ e.message⟩], state⟩
  | .ok statement =>
    let entry : LogEntry :=
      ⟨.debug, "Compiled statement: " ++ statement.logged.line s.config.logLimit?⟩
    let (complaints, state) := notify statement.logged s.observers state
    ⟨.ok statement, entry :: complaints, state⟩

end Session

/-! ### Recording -/

/-- The statement that was compiled last, if any since the last clearing. -/
structure Recorder where
  last? : Option LoggedStatement := none
deriving DecidableEq, Repr

namespace Recorder

/-- The recorder with a statement. -/
def record (_ : Recorder) (s : LoggedStatement) : Recorder := ⟨some s⟩

/-- The recorder without any statement. -/
def clear (_ : Recorder) : Recorder := ⟨none⟩

/-- The text of the last statement. -/
def lastText? (r : Recorder) : Option String := r.last?.map (·.text)

/-- The observer that keeps the statement in a recorder among the state, and never complains. -/
def observer {σ : Type} (get : σ → Recorder) (set : Recorder → σ → σ) : Observer σ :=
  fun s state => (none, set ((get state).record s) state)

end Recorder

end QueryLoom
