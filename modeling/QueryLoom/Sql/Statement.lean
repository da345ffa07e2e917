/-
  QueryLoom/Sql/Statement.lean
  ============================
  **Statements as text with the values bound to their placeholders.**  Positional
  placeholders are all `?` and the bindings stand in their order.  Named placeholders are
  `@` and a name: a parameter is bound once under its own name, and each constant gets
  one of the names `p0`, `p1` and so on that no parameter has.

  `write` goes through the pieces from left to right and stops at the first one that cannot
  be written; what has been bound by then stays bound.
-/
import QueryLoom.Sql.Piece
import QueryLoom.Sql.Drafting
import QueryLoom.Query.Json

namespace QueryLoom

/-- How placeholders are written. -/
inductive Placeholders where
  | positional
  | named
deriving DecidableEq, Repr

/-- The name of a style. -/
def Placeholders.name : Placeholders → String
  | positional => "positional"
  | named => "named"

/-- The style with a name. -/
def Placeholders.ofName? (n : String) : Option Placeholders :=
  [positional, named].find? fun p => p.name == n

/-- What is bound to a placeholder: a value given when the statement is run, or a constant of
    the query. -/
inductive Binding where
  | dynamic (p : Parameter)
  | constant (v : Value)
deriving DecidableEq

namespace Binding

/-- Whether a constant is bound. -/
def isConstant : Binding → Bool
  | constant _ => true
  | dynamic _ => false

/-- The type of what is bound. -/
def type : Binding → DataType
  | dynamic p => p.type
  | constant v => v.type

/-- A binding as logs show it. -/
def shown : Binding → String
  | dynamic p => "@" ++ p.name ++ ": " ++ p.type.shown
  | constant v => v.shown

/-- A binding as JSON. -/
def toJson : Binding → Json
  | dynamic p => .tagged "Dynamic" p.toJson
  | constant v => .tagged "Constant" v.toJson

end Binding

/-- The text of a statement with its bindings. -/
structure Statement where
  text : String
  bindings : List Binding
deriving DecidableEq

namespace Sql

/-- The identifier between quotes, if the server can have it. -/
def identifier (caps : Capabilities) (id : String) : Except CompileError String :=
  if id.isEmpty then .error .identifierEmpty
  else if id.toList.contains (Char.ofNat 0) then .error (.identifierWithNul id)
  else if caps.maxIdentifier < id.length then
    .error (.identifierTooLong id caps.version caps.maxIdentifier)
  else .ok (Text.quoted '"' id)

/-- How pieces are written. -/
structure Style where
  caps : Capabilities
  placeholders : Placeholders
  /-- The names that no constant may have. -/
  reserved : List String := []

namespace Style

/-- The placeholder of a parameter, and the bindings with it. -/
def bind (style : Style) (bound : List Binding) (p : Parameter) : String × List Binding :=
  match style.placeholders with
  | .positional => ("?", bound ++ [.dynamic p])
  | .named =>
    let isBound := bound.any fun b => match b with
      | .dynamic q => q.name == p.name
      | .constant _ => false
    ("@" ++ p.name, if isBound then bound else bound ++ [.dynamic p])

/-- The name of the constant after `n` others. -/
def constantName (style : Style) (n : Nat) : String :=
  Text.numbered "p" (Text.freeNumber "p" style.reserved n 0)

/-- The placeholder of a constant, and the bindings with it. -/
def bindConstant (style : Style) (bound : List Binding) (v : Value) : String × List Binding :=
  let placeholder := match style.placeholders with
    | .positional => "?"
    | .named => "@" ++ style.constantName (bound.countP Binding.isConstant)
  (placeholder, bound ++ [.constant v])

/-- The text of a piece, and the bindings after it. -/
def writePiece (style : Style) (bound : List Binding) :
    Piece → Except CompileError (String × List Binding)
  | .word w => .ok (w, bound)
  | .symbol s => .ok (s, bound)
  | .number ds => .ok (ds, bound)
  | .space => .ok (" ", bound)
  | .name id => (identifier style.caps id).map fun text => (text, bound)
  | .string s => .ok (Text.quoted '\'' s, bound)
  | .parameter p => .ok (style.bind bound p)
  | .constant v => .ok (style.bindConstant bound v)
  | .refused e => .error e

/-- The text of pieces, and the bindings after them. -/
def write (style : Style) (bound : List Binding) :
    List Piece → Except CompileError String × List Binding
  | [] => (.ok "", bound)
  | p :: rest => match style.writePiece bound p with
    | .error e => (.error e, bound)
    | .ok (text, bound) =>
      let (result, bound) := style.write bound rest
      (result.map (text ++ ·), bound)

end Style

/-- The name of a parameter. -/
def Expr.parameterName? : Expr → Option String
  | .parameter p => some p.name
  | _ => none

/-- The names of all parameters in a statement. -/
def Select.parameterNames (s : Select) : List String := s.walk.filterMap Expr.parameterName?

/-- Writes a statement. -/
def render (caps : Capabilities) (placeholders : Placeholders) (s : Select) :
    Except CompileError Statement :=
  let style : Style := ⟨caps, placeholders, s.parameterNames⟩
  let (result, bound) := style.write [] (s.pieces caps)
  result.map fun text => ⟨text, bound⟩

end Sql

/-- The statement of a query. -/
def compile (caps : Capabilities) (placeholders : Placeholders) (q : Query) :
    Except CompileError Statement := do
  let s ← Sql.Select.ofQuery caps q
  Sql.render caps placeholders s

end QueryLoom
