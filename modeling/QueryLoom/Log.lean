/-
  QueryLoom/Log.lean
  ==================
  **What is logged.**  A log entry has a level and a text.  Statements are logged with their
  bindings as text, and a long text is cut to a number of characters.
-/
import QueryLoom.Sql.Statement

namespace QueryLoom

/-- How important a log entry is. -/
inductive LogLevel where
  | trace
  | debug
  | info
  | warn
deriving DecidableEq, Repr

/-- The name of a level. -/
def LogLevel.name : LogLevel → String
  | trace => "TRACE"
  | debug => "DEBUG"
  | info => "INFO"
  | warn => "WARN"

/-- An entry of the log. -/
structure LogEntry where
  level : LogLevel
  text : String
deriving DecidableEq, Repr

/-- The entry on one line. -/
def LogEntry.line (e : LogEntry) : String := e.level.name ++ " " ++ e.text

/-- A text of at most `limit?` characters, or its first ones and three dots. -/
def limited (limit? : Option Nat) (s : String) : String :=
  match limit? with
  | none => s
  | some n => if n < s.length then String.ofList (s.toList.take n) ++ "..." else s

/-- A statement with its bindings as text. -/
structure LoggedStatement where
  text : String
  bindings : List String
deriving DecidableEq, Repr

namespace LoggedStatement

/-- The texts of the bindings, shown between brackets. -/
def shownBindings (s : LoggedStatement) : String := Text.bracketed (s.bindings.map Text.shown)

/-- The statement and its bindings on one line, each cut to the limit. -/
def line (limit? : Option Nat) (s : LoggedStatement) : String :=
  limited limit? s.text ++ " " ++ limited limit? s.shownBindings

end LoggedStatement

/-- A statement as it is logged, with one text for each binding in the same order. -/
def Statement.logged (s : Statement) : LoggedStatement := ⟨s.text, s.bindings.map Binding.shown⟩

/-- A statement as JSON. -/
def Statement.toJson (s : Statement) : Json :=
  .object [("query", s.text), ("params", .array (s.bindings.map Binding.toJson))]

end QueryLoom
