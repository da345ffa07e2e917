/-
  QueryLoom/Sql/Drafting.lean
  ===========================
  **From query trees to SELECT statements.**  The operators of a sequence are collected in a
  draft of one statement as long as they fit the order in which SQL applies its clauses.
  An operator that does not fit pushes the draft down: the statement so far becomes a
  derived table with an alias of its own, and a new draft reads from it.

  An expression is taken over in the scope of rows, innermost first.  A row has the alias
  that the query knows it by and the alias of the statement that it comes from now.
  `inRow` puts a row in scope for one expression and takes it out again, whether that
  succeeds or fails.
-/
import QueryLoom.Sql.Agreement
import QueryLoom.Sql.Mapping
import QueryLoom.Sql.Paging
import QueryLoom.Text.FreeName

namespace QueryLoom.Sql

/-- A row that expressions can refer to. -/
structure Scope where
  /-- The alias in the query. -/
  logical : String
  /-- The alias in the statement. -/
  actual : String
deriving DecidableEq, Repr

/-- What drafting knows of names. -/
structure Naming where
  /-- The rows in scope, innermost first. -/
  scopes : List Scope := []
  /-- The first number that no derived table has. -/
  derived : Nat := 0
  /-- The aliases of tables, which no derived table may have. -/
  sourceAliases : List String := []
deriving DecidableEq, Repr

/-- A step of drafting.  What it learned of names stays when it fails. -/
abbrev Drafting := ExceptT CompileError (StateM Naming)

/-- Runs a step with a row in scope. -/
def inRow {α : Type} (row : Scope) (x : Drafting α) : Drafting α :=
  ExceptT.mk fun names =>
    let (result, after) := x.run.run { names with scopes := row :: names.scopes }
    (result, { after with scopes := names.scopes })

/-- A new alias for a derived table. -/
def freshAlias : Drafting String := do
  let names ← get
  let i := Text.freeNumber "t" names.sourceAliases 0 names.derived
  set { names with derived := i + 1 }
  return Text.numbered "t" i

/-! ### Drafts -/

/-- A statement in the making. -/
structure Draft where
  select : Select
  row : Scope
  paging : Paging := {}
  projected : Bool := false

namespace Draft

/-- Whether the draft has a window. -/
def isPaged (d : Draft) : Bool := !d.paging.isEmpty

/-- The draft with one more condition. -/
def filtered (d : Draft) (condition : Expr) : Draft :=
  { d with select := { d.select with conditions := d.select.conditions ++ [condition] } }

/-- The draft with columns of its own. -/
def projecting (d : Draft) (columns : List Column) : Draft :=
  { d with select := { d.select with columns }, projected := true }

/-- The draft with one more key of its ordering. -/
def ordered (d : Draft) (key : OrderKey) : Draft :=
  { d with select := { d.select with ordering := d.select.ordering ++ [key] } }

/-- The draft as a statement.  Without columns of its own it selects all of them. -/
def finish (d : Draft) : Except CompileError Select := do
  let columns ← match d.select.columns, d.select.origin.alias? with
    | [], some source => .ok [Column.mk (.allColumns source) none]
    | [], none => .error .nothingToSelect
    | columns, _ => .ok columns
  return { d.select with columns, window? := ← d.paging.window? }

/-- The draft as a statement that is only asked whether it has rows.  Its columns do not
    matter, and its ordering only where a window depends on it. -/
def existence (d : Draft) : Except CompileError Select :=
  let ordering := if d.isPaged then d.select.ordering else []
  { d with select := { d.select with ordering, columns := [⟨.int 1, none⟩] } }.finish

end Draft

/-! ### Pushing down -/

/-- The selected column that holds a key, if that column has a name. -/
def Select.columnOf? (s : Select) (key : Expr) : Option String :=
  (s.columns.find? fun c => c.expr.agrees key).bind Column.alias?

/-- A key of a statement in terms of the derived table it becomes.  It must be one of the
    columns, unless the statement selects all columns of its origin. -/
def Select.carry (s : Select) (source : String) (key : Expr) : Option Expr :=
  match s.columnOf? key with
  | some name => some (.column source name)
  | none =>
    if s.selectsAllColumns then s.origin.alias?.bind fun old => key.rebase old source
    else none

/-- The ordering of a statement in terms of the derived table it becomes. -/
def Select.carryOrdering (s : Select) (source : String) : Except CompileError (List OrderKey) :=
  s.ordering.mapM fun k =>
    match s.carry source k.expr with
    | some e => .ok ⟨e, k.direction⟩
    | none => .error .lostOrdering

/-- A draft that reads from the given one.  The rows of a derived table have no order, so the
    ordering moves out, and stays in as well where a window depends on it. -/
def pushDown (d : Draft) : Drafting Draft := do
  let inner ← d.finish
  let source ← freshAlias
  let ordering ← inner.carryOrdering source
  let inner := if inner.isPaged then inner else { inner with ordering := [] }
  return {
    select := { Select.reading (.derived inner source) with ordering }
    row := ⟨d.row.logical, source⟩ }

/-- Pushes a draft down if need be. -/
def pushDownIf (needed : Bool) (d : Draft) : Drafting Draft :=
  if needed then pushDown d else return d

/-! ### Conditions and values -/

/-- An expression as a condition.  Without Booleans a value stands for the truth as one. -/
def asPredicate (caps : Capabilities) (e : Expr) : Expr :=
  if e.isPredicate || caps.booleanType then e else .binary e .equal (.int 1)

/-- An expression as a value.  Without Booleans a condition has to become one or zero. -/
def asValue (caps : Capabilities) (e : Expr) : Expr :=
  if !e.isPredicate || caps.booleanType then e else .case [⟨e, .int 1⟩] (some (.int 0))

/-- A column in scope: of the innermost row, or of the innermost one with an alias. -/
def resolve (alias? : Option String) (name : String) : Drafting Expr := do
  let scopes := (← get).scopes
  match alias? with
  | none => match scopes.head? with
    | some row => return .column row.actual name
    | none => throw (.noSourceInScope name)
  | some source => match scopes.find? fun row => row.logical == source with
    | some row => return .column row.actual name
    | none => throw (.unknownSource name source)

/-- Whether a node is the constant null. -/
def isNullConstant : Query → Bool
  | .constant .null => true
  | _ => false

/-- The operators for which null is compared as a value. -/
def testsEquality (op : QueryLoom.BinaryOperator) : Bool := op == .equal || op == .notEqual

/-! ### Expressions and sequences -/

mutual

/-- A scalar expression. -/
def expression (caps : Capabilities) : Query → Drafting Expr
  | .constant v => return .literal v
  | .parameter p => return .parameter p
  | .member receiver? (.column alias? name) =>
    if receiver?.isSome then throw (.columnOfExpression name) else resolve alias? name
  | .member receiver? (.property p) => do
    let receiver? ← optionValue caps receiver?
    (← Mapping.find (.property p) 0).apply caps receiver? []
  | .call receiver? m args => do
    let mapping ← Mapping.find (.method m) args.length
    let receiver? ← optionValue caps receiver?
    let args ← values caps args
    mapping.apply caps receiver? args
  | .binary left op right =>
    if testsEquality op && isNullConstant left then
      return .isNull (asValue caps (← expression caps right)) (op == .notEqual)
    else if testsEquality op && isNullConstant right then
      return .isNull (asValue caps (← expression caps left)) (op == .notEqual)
    else do
      let operand := if op.isLogical then asPredicate caps else asValue caps
      let left ← expression caps left
      let right ← expression caps right
      return .binary (operand left) (.ofQuery op) (operand right)
  | .unary .not operand => return .unary .not (asPredicate caps (← expression caps operand))
  | .unary .negate operand => return .unary .negate (asValue caps (← expression caps operand))
  | .any rows predicate? => do
    let d ← sequence caps rows
    let d ← meeting caps d predicate?
    return .existsRow (← d.existence)
  | .source .. => throw (.notAScalar "Source")
  | .filter .. => throw (.notAScalar "Filter")
  | .project .. => throw (.notAScalar "Project")
  | .skip .. => throw (.notAScalar "Skip")
  | .take .. => throw (.notAScalar "Take")
  | .orderBy .. => throw (.notAScalar "OrderBy")

/-- A value that may be missing. -/
def optionValue (caps : Capabilities) : Option Query → Drafting (Option Expr)
  | none => return none
  | some q => return some (asValue caps (← expression caps q))

/-- A list of values. -/
def values (caps : Capabilities) : List Query → Drafting (List Expr)
  | [] => return []
  | q :: rest => do
    let e ← expression caps q
    return asValue caps e :: (← values caps rest)

/-- The columns of a projection. -/
def projection (caps : Capabilities) : List (String × Query) → Drafting (List Column)
  | [] => return []
  | (name, q) :: rest => do
    let e ← expression caps q
    return ⟨asValue caps e, some name⟩ :: (← projection caps rest)

/-- The draft of a sequence. -/
def sequence (caps : Capabilities) : Query → Drafting Draft
  | .source table alias? =>
    let source := Query.sourceAlias table alias?
    return { select := .reading (.table table source), row := ⟨source, source⟩ }
  | .filter rows predicate => do
    let d ← sequence caps rows
    let d ← pushDownIf (d.isPaged || d.projected) d
    return d.filtered (asPredicate caps (← inRow d.row (expression caps predicate)))
  | .project rows columns => do
    let d ← sequence caps rows
    let d ← pushDownIf d.projected d
    return d.projecting (← inRow d.row (projection caps columns))
  | .skip rows count => do
    let d ← sequence caps rows
    let d ← pushDownIf d.isPaged d
    return { d with paging := { d.paging with
      skip? := some (← Paging.rowCount PagingOperator.skip.name count) } }
  | .take rows count => do
    let d ← sequence caps rows
    let d ← pushDownIf d.paging.take?.isSome d
    return { d with paging := { d.paging with
      take? := some (← Paging.rowCount PagingOperator.take.name count) } }
  | .orderBy rows key direction => do
    let d ← sequence caps rows
    let d ← pushDownIf (d.isPaged || d.projected) d
    return d.ordered ⟨asValue caps (← inRow d.row (expression caps key)), direction⟩
  | .any .. => throw (.notASequence "Any")
  | .member .. => throw (.notASequence "MemberAccess")
  | .call .. => throw (.notASequence "MethodCall")
  | .constant _ => throw (.notASequence "Constant")
  | .parameter _ => throw (.notASequence "Parameter")
  | .binary .. => throw (.notASequence "BinaryOp")
  | .unary .. => throw (.notASequence "UnaryOp")

/-- The draft with the predicate of a test for rows, if it has one. -/
def meeting (caps : Capabilities) (d : Draft) : Option Query → Drafting Draft
  | none => return d
  | some predicate => do
    let d ← pushDownIf (d.isPaged || d.projected) d
    return d.filtered (asPredicate caps (← inRow d.row (expression caps predicate)))

end

/-- The statement whose only row holds the outcome of a test. -/
def answering (test : Expr) : Select :=
  let outcome : Expr := .case [⟨test, .literal (.boolean true)⟩] (some (.literal (.boolean false)))
  { Select.reading .singleRow with columns := [⟨outcome, none⟩] }

/-- The statement of a query. -/
def statement (caps : Capabilities) (q : Query) : Drafting Select := do
  modify fun names => { names with sourceAliases := names.sourceAliases ++ q.sourceAliases }
  match q with
  | .any .. => do
    caps.require .topLevelAny
    return answering (← expression caps q)
  | q =>
    if q.isSequence then do
      let d ← sequence caps q
      d.finish
    else throw (.notAQuery q.kind)

/-- The statement of a query on its own. -/
def Select.ofQuery (caps : Capabilities) (q : Query) : Except CompileError Select :=
  ((statement caps q).run.run {}).1

end QueryLoom.Sql
