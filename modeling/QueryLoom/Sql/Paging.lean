/-
  QueryLoom/Sql/Paging.lean
  =========================
  **Windows of rows.**  A query skips and takes counts of rows; SQL gives the first and the
  last row of the window, counted from one.  Skipping `s` and taking `t` is the window
  from `s + 1` to `s + t`.  The counts stay symbolic, so one statement serves every page
  of a query whose counts are parameters.
-/
import QueryLoom.Sql.Basic
import QueryLoom.CompileError

namespace QueryLoom.Sql

/-- The counts of rows to skip and to take. -/
structure Paging where
  skip? : Option Expr := none
  take? : Option Expr := none

namespace Paging

/-- No row is skipped and all are taken. -/
def isEmpty (p : Paging) : Bool := p.skip?.isNone && p.take?.isNone

/-- Accepts as a count an integer constant that is not negative, and a parameter of an
    integer type. -/
def checkCount (operator : String) : Expr → Except CompileError Unit
  | .literal v =>
    match v.integer? with
    | some n => if n < 0 then .error (.countNegative operator n) else .ok ()
    | none => .error (.countNotInteger operator v)
  | .parameter p => if p.type.isInteger then .ok () else .error (.countTyped operator p)
  | _ => .error (.countNotRow operator)

/-- The count that a node of a query gives. -/
def rowCount (operator : String) (count : Query) : Except CompileError Expr := do
  let e ← match count with
    | .constant v => .ok (Expr.literal v)
    | .parameter p => .ok (Expr.parameter p)
    | q => .error (.countNotConstant operator q.kind)
  checkCount operator e
  return e

/-- The last row that there can be. -/
def lastRow : Expr := .literal (.int64 Int64.maxValue)

/-- The window of the counts. -/
def window? (p : Paging) : Except CompileError (Option Window) := do
  if let some skip := p.skip? then checkCount PagingOperator.skip.name skip
  if let some take := p.take? then checkCount PagingOperator.take.name take
  match p.skip?, p.take? with
  | none, none => return none
  | none, some take => return some ⟨take, none⟩
  | some skip, none => return some ⟨.binary skip .add (.int 1), some lastRow⟩
  | some skip, some take =>
    return some ⟨.binary skip .add (.int 1), some (.binary skip .add take)⟩

end Paging

end QueryLoom.Sql
