/-
  QueryLoom/Sql/Basic.lean
  ========================
  **SQL as a tree**: expressions, and the SELECT statements that hold them and stand in
  them.  A tree says what a statement means for the server and not how it is written.

  `walk` lists the expressions of a tree from left to right, and `rebase` gives a source
  another name in an expression that holds no statement.
-/
import QueryLoom.Query.Basic

namespace QueryLoom.Sql

/-! ### The parts of expressions -/

/-- An operator between two expressions. -/
inductive BinaryOperator where
  | add
  | subtract
  | multiply
  | divide
  | modulo
  | concat
  | and
  | or
  | equal
  | notEqual
  | greater
  | greaterOrEqual
  | less
  | lessOrEqual
  | startingWith
deriving DecidableEq, Repr

namespace BinaryOperator

/-- The operators that give a condition and not a value. -/
def isPredicate : BinaryOperator → Bool
  | add | subtract | multiply | divide | modulo | concat => false
  | _ => true

/-- The SQL operator of an operator in a query. -/
def ofQuery : QueryLoom.BinaryOperator → BinaryOperator
  | .add => add
  | .subtract => subtract
  | .multiply => multiply
  | .divide => divide
  | .modulo => modulo
  | .concat => concat
  | .and => and
  | .or => or
  | .equal => equal
  | .notEqual => notEqual
  | .greater => greater
  | .greaterOrEqual => greaterOrEqual
  | .less => less
  | .lessOrEqual => lessOrEqual

end BinaryOperator

/-- An operator on one expression. -/
inductive UnaryOperator where
  | not
  | negate
deriving DecidableEq, Repr

/-- The ends of a text that are trimmed. -/
inductive TrimSide where
  | both
  | leading
  | trailing
deriving DecidableEq, Repr

/-- A part of a date or a time. -/
inductive DatePart where
  | year
  | month
  | day
  | hour
  | minute
  | second
  | millisecond
  | yearDay
  | weekDay
deriving DecidableEq, Repr

/-- A type that values are cast to. -/
inductive CastType where
  | date
  | time
  | timestamp
deriving DecidableEq, Repr

/-! ### Expressions and statements -/

mutual

/-- An expression. -/
inductive Expr where
  | column (source name : String)
  | allColumns (source : String)
  | literal (value : Value)
  | parameter (p : Parameter)
  | keyword (word : String)
  | function (name : String) (args : List Expr)
  | trim (side? : Option TrimSide) (chars? : Option Expr) (text : Expr)
  /-- The start counts from one. -/
  | substring (text start : Expr) (length? : Option Expr)
  | extract (part : DatePart) (operand : Expr)
  | cast (operand : Expr) (type : CastType)
  /-- The first place of the needle, from one, or zero. -/
  | position (needle haystack : Expr)
  | dateAdd (amount : Expr) (part : DatePart) (operand : Expr)
  | atTimeZone (operand : Expr) (zone : String)
  | binary (left : Expr) (op : BinaryOperator) (right : Expr)
  | unary (op : UnaryOperator) (operand : Expr)
  | isNull (operand : Expr) (negated : Bool)
  | case (whens : List When) (otherwise? : Option Expr)
  | existsRow (rows : Select)

/-- A branch of a CASE. -/
structure When where
  condition : Expr
  result : Expr

/-- A SELECT statement.  The conditions all have to hold. -/
structure Select where
  columns : List Column
  origin : Origin
  conditions : List Expr
  ordering : List OrderKey
  window? : Option Window

/-- A selected column, with a name of its own or without. -/
structure Column where
  expr : Expr
  alias? : Option String

/-- Where the rows of a statement come from. -/
inductive Origin where
  | table (name source : String)
  | derived (rows : Select) (source : String)
  /-- The system table that has one row. -/
  | singleRow

/-- A key of an ordering. -/
structure OrderKey where
  expr : Expr
  direction : Direction

/-- The window of rows from `lower` up to `upper`, both counted from one and included.
    Without an upper bound it is the first `lower` rows. -/
structure Window where
  lower : Expr
  upper? : Option Expr

end

/-- The alias of the rows. -/
def Origin.alias? : Origin → Option String
  | table _ source => some source
  | derived _ source => some source
  | singleRow => none

namespace Expr

instance : Inhabited Expr := ⟨literal .null⟩

/-- The integer as a literal of 32 bits. -/
def int (n : Int32) : Expr := literal (.int32 n)

/-- Whether the expression is a condition and not a value. -/
def isPredicate : Expr → Bool
  | binary _ op _ => op.isPredicate
  | unary op _ => op == .not
  | isNull .. => true
  | existsRow _ => true
  | _ => false

end Expr

namespace Select

/-- The statement that reads rows from an origin and has no clause yet. -/
def reading (origin : Origin) : Select := ⟨[], origin, [], [], none⟩

/-- Whether the statement keeps a window of its rows. -/
def isPaged (s : Select) : Bool := s.window?.isSome

/-- Whether the statement selects every column of its origin and nothing else. -/
def selectsAllColumns (s : Select) : Bool :=
  match s.columns, s.origin.alias? with
  | [⟨.allColumns shown, none⟩], some source => shown == source
  | _, _ => false

end Select

/-! ### Walking -/

mutual

/-- The expression and all expressions in it from left to right, those of statements too. -/
def Expr.walk (e : Expr) : List Expr :=
  e :: match e with
    | .column .. | .allColumns _ | .literal _ | .parameter _ | .keyword _ => []
    | .function _ args => walkList args
    | .trim _ chars? text => walkOption chars? ++ text.walk
    | .substring text start length? => text.walk ++ start.walk ++ walkOption length?
    | .extract _ operand => operand.walk
    | .cast operand _ => operand.walk
    | .position needle haystack => needle.walk ++ haystack.walk
    | .dateAdd amount _ operand => amount.walk ++ operand.walk
    | .atTimeZone operand _ => operand.walk
    | .binary left _ right => left.walk ++ right.walk
    | .unary _ operand => operand.walk
    | .isNull operand _ => operand.walk
    | .case whens otherwise? => walkWhens whens ++ walkOption otherwise?
    | .existsRow rows => rows.walk

/-- The expressions in one that may be missing. -/
def walkOption : Option Expr → List Expr
  | none => []
  | some e => e.walk

/-- The expressions in a list. -/
def walkList : List Expr → List Expr
  | [] => []
  | e :: rest => e.walk ++ walkList rest

/-- The expressions in the branches of a CASE. -/
def walkWhens : List When → List Expr
  | [] => []
  | ⟨condition, result⟩ :: rest => condition.walk ++ result.walk ++ walkWhens rest

/-- The expressions of a statement: columns, origin, conditions, ordering and window. -/
def Select.walk : Select → List Expr
  | ⟨columns, origin, conditions, ordering, window?⟩ =>
    walkColumns columns ++ origin.walk ++ walkList conditions ++ walkKeys ordering
      ++ walkWindow window?

/-- The expressions in selected columns. -/
def walkColumns : List Column → List Expr
  | [] => []
  | ⟨e, _⟩ :: rest => e.walk ++ walkColumns rest

/-- The expressions in the origin of rows. -/
def Origin.walk : Origin → List Expr
  | .table .. | .singleRow => []
  | .derived rows _ => rows.walk

/-- The expressions in the keys of an ordering. -/
def walkKeys : List OrderKey → List Expr
  | [] => []
  | ⟨e, _⟩ :: rest => e.walk ++ walkKeys rest

/-- The expressions in the bounds of a window. -/
def walkWindow : Option Window → List Expr
  | none => []
  | some ⟨lower, upper?⟩ => lower.walk ++ walkOption upper?

end

/-- Whether an expression is a test for rows. -/
def Expr.isExists : Expr → Bool
  | .existsRow _ => true
  | _ => false

/-- Whether an expression holds a statement. -/
def Expr.hasSubquery (e : Expr) : Bool := e.walk.any Expr.isExists

/-! ### Renaming sources -/

/-- The new name of a source. -/
def renamed (old new source : String) : String := if source = old then new else source

mutual

/-- The expression with the source `old` called `new`, statements in it left alone. -/
def Expr.rename (old new : String) : Expr → Expr
  | .column source name => .column (renamed old new source) name
  | .allColumns source => .allColumns (renamed old new source)
  | .function name args => .function name (renameList old new args)
  | .trim side? chars? text => .trim side? (renameOption old new chars?) (text.rename old new)
  | .substring text start length? =>
    .substring (text.rename old new) (start.rename old new) (renameOption old new length?)
  | .extract part operand => .extract part (operand.rename old new)
  | .cast operand type => .cast (operand.rename old new) type
  | .position needle haystack => .position (needle.rename old new) (haystack.rename old new)
  | .dateAdd amount part operand =>
    .dateAdd (amount.rename old new) part (operand.rename old new)
  | .atTimeZone operand zone => .atTimeZone (operand.rename old new) zone
  | .binary left op right => .binary (left.rename old new) op (right.rename old new)
  | .unary op operand => .unary op (operand.rename old new)
  | .isNull operand negated => .isNull (operand.rename old new) negated
  | .case whens otherwise? =>
    .case (renameWhens old new whens) (renameOption old new otherwise?)
  | .literal v => .literal v
  | .parameter p => .parameter p
  | .keyword w => .keyword w
  | .existsRow rows => .existsRow rows

/-- Renames in an expression that may be missing. -/
def renameOption (old new : String) : Option Expr → Option Expr
  | none => none
  | some e => some (e.rename old new)

/-- Renames in a list. -/
def renameList (old new : String) : List Expr → List Expr
  | [] => []
  | e :: rest => e.rename old new :: renameList old new rest

/-- Renames in the branches of a CASE. -/
def renameWhens (old new : String) : List When → List When
  | [] => []
  | ⟨condition, result⟩ :: rest =>
    ⟨condition.rename old new, result.rename old new⟩ :: renameWhens old new rest

end

/-- The expression with the source `old` called `new`, unless it holds a statement. -/
def Expr.rebase (old new : String) (e : Expr) : Option Expr :=
  if e.hasSubquery then none else some (e.rename old new)

end QueryLoom.Sql
