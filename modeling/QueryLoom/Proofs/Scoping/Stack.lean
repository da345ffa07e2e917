/-
  QueryLoom/Proofs/Scoping/Stack.lean
  ===================================
  **One stack of rows, changed in place.**  Drafting puts a row in scope for one expression and
  takes it out again, so nothing can go wrong with the rows in scope.  `Stacked` is drafting as it
  is done with a single stack: a table pushes its row and leaves it there, pushing down gives the
  top row the alias of the derived table, and an expression reads what the stack holds.  Rows are
  taken off in two places only, where a test for rows and where a statement ends.  Both cut the
  stack back to the height that it had, whether the step inside succeeded or failed.

  The two agree.  What carries the proof is `Rises`: a sequence leaves its own row on the stack when
  it succeeds and at most one row when it fails, and never changes a row below.

    * `Stacked.rises_sequence` — what a sequence leaves on the stack;
    * `Stacked.expression_eq`, `Stacked.statement_eq` — the same results, the same errors and the
      same names as with rows that are put in scope and taken out;
    * `scopes_restored` — both put the stack back.
-/
import QueryLoom.Proofs.Drafting.Naming

namespace QueryLoom.Sql

namespace Stacked

/-! ### Drafting on a stack -/

/-- Puts a row on the stack. -/
def push (row : Scope) : Drafting Unit :=
  modify fun n => { n with scopes := row :: n.scopes }

/-- Gives the top row of the stack another alias in the statement. -/
def renameTop (source : String) : Drafting Unit :=
  modify fun n => { n with scopes := n.scopes.modifyHead fun row => { row with actual := source } }

/-- Runs a step and cuts the stack back to the height that it had, whatever the step gave. -/
def truncating {α : Type} (x : Drafting α) : Drafting α :=
  ExceptT.mk fun n =>
    let (result, after) := x.run.run n
    (result, { after with scopes := after.scopes.drop (after.scopes.length - n.scopes.length) })

/-- Pushes a draft down.  The top row comes from the derived table now. -/
def pushDown (d : Draft) : Drafting Draft := do
  let d ← Sql.pushDown d
  renameTop d.row.actual
  return d

/-- Pushes a draft down if need be. -/
def pushDownIf (needed : Bool) (d : Draft) : Drafting Draft :=
  if needed then pushDown d else return d

mutual

/-- A scalar expression, with the rows of the stack in scope. -/
def expression (caps : Capabilities) : Query → Drafting Expr
  | .constant v => return .literal v
  | .parameter p => return .parameter p
  | .member receiver? (.column alias? name) =>
    if receiver?.isSome then throw (.columnOfExpression name) else resolve alias? name
  | .member receiver? (.property p) => do
    let receiver? ← optionValue caps receiver?
    (← Mapping.find (.property p) 0).apply caps receiver? []
  | .call receiver? m args => do
    let mapping ← Mapping.find (.method m) args.length
    let receiver? ← optionValue caps receiver?
    let args ← values caps args
    mapping.apply caps receiver? args
  | .binary left op right =>
    if testsEquality op && isNullConstant left then
      return .isNull (asValue caps (← expression caps right)) (op == .notEqual)
    else if testsEquality op && isNullConstant right then
      return .isNull (asValue caps (← expression caps left)) (op == .notEqual)
    else do
      let operand := if op.isLogical then asPredicate caps else asValue caps
      let left ← expression caps left
      let right ← expression caps right
      return .binary (operand left) (.ofQuery op) (operand right)
  | .unary .not operand => return .unary .not (asPredicate caps (← expression caps operand))
  | .unary .negate operand => return .unary .negate (asValue caps (← expression caps operand))
  | .any rows predicate? => truncating do
    let d ← sequence caps rows
    let d ← meeting caps d predicate?
    return .existsRow (← d.existence)
  | .source .. => throw (.notAScalar "Source")
  | .filter .. => throw (.notAScalar "Filter")
  | .project .. => throw (.notAScalar "Project")
  | .skip .. => throw (.notAScalar "Skip")
  | .take .. => throw (.notAScalar "Take")
  | .orderBy .. => throw (.notAScalar "OrderBy")

/-- A value that may be missing. -/
def optionValue (caps : Capabilities) : Option Query → Drafting (Option Expr)
  | none => return none
  | some q => return some (asValue caps (← expression caps q))

/-- A list of values. -/
def values (caps : Capabilities) : List Query → Drafting (List Expr)
  | [] => return []
  | q :: rest => do
    let e ← expression caps q
    return asValue caps e :: (← values caps rest)

/-- The columns of a projection. -/
def projection (caps : Capabilities) : List (String × Query) → Drafting (List Column)
  | [] => return []
  | (name, q) :: rest => do
    let e ← expression caps q
    return ⟨asValue caps e, some name⟩ :: (← projection caps rest)

/-- The draft of a sequence, whose row stays on the stack. -/
def sequence (caps : Capabilities) : Query → Drafting Draft
  | .source table alias? => do
    let source := Query.sourceAlias table alias?
    push ⟨source, source⟩
    return { select := .reading (.table table source), row := ⟨source, source⟩ }
  | .filter rows predicate => do
    let d ← sequence caps rows
    let d ← pushDownIf (d.isPaged || d.projected) d
    return d.filtered (asPredicate caps (← expression caps predicate))
  | .project rows columns => do
    let d ← sequence caps rows
    let d ← pushDownIf d.projected d
    return d.projecting (← projection caps columns)
  | .skip rows count => do
    let d ← sequence caps rows
    let d ← pushDownIf d.isPaged d
    return { d with paging := { d.paging with
      skip? := some (← Paging.rowCount PagingOperator.skip.name count) } }
  | .take rows count => do
    let d ← sequence caps rows
    let d ← pushDownIf d.paging.take?.isSome d
    return { d with paging := { d.paging with
      take? := some (← Paging.rowCount PagingOperator.take.name count) } }
  | .orderBy rows key direction => do
    let d ← sequence caps rows
    let d ← pushDownIf (d.isPaged || d.projected) d
    return d.ordered ⟨asValue caps (← expression caps key), direction⟩
  | .any .. => throw (.notASequence "Any")
  | .member .. => throw (.notASequence "MemberAccess")
  | .call .. => throw (.notASequence "MethodCall")
  | .constant _ => throw (.notASequence "Constant")
  | .parameter _ => throw (.notASequence "Parameter")
  | .binary .. => throw (.notASequence "BinaryOp")
  | .unary .. => throw (.notASequence "UnaryOp")

/-- The draft with the predicate of a test for rows, if it has one. -/
def meeting (caps : Capabilities) (d : Draft) : Option Query → Drafting Draft
  | none => return d
  | some predicate => do
    let d ← pushDownIf (d.isPaged || d.projected) d
    return d.filtered (asPredicate caps (← expression caps predicate))

end

/-- The statement of a query. -/
def statement (caps : Capabilities) (q : Query) : Drafting Select := do
  modify fun names => { names with sourceAliases := names.sourceAliases ++ q.sourceAliases }
  truncating do
    match q with
    | .any .. => do
      caps.require .topLevelAny
      return answering (← expression caps q)
    | q =>
      if q.isSequence then do
        let d ← sequence caps q
        d.finish
      else throw (.notAQuery q.kind)

/-! ### Steps that do not look at rows -/

section Ignoring

variable {α β : Type}

/-- Whatever rows are in scope, the step does the same and leaves them there. -/
def IgnoresRows (x : Drafting α) : Prop :=
  ∀ (n : Naming) (scopes : List Scope), x.run.run { n with scopes } =
    ((x.run.run n).1, { (x.run.run n).2 with scopes })

theorem ignoresRows_lift (result : Except CompileError α) :
    IgnoresRows (liftM result : Drafting α) :=
  fun _ _ => rfl

theorem ignoresRows_freshAlias : IgnoresRows freshAlias := fun _ _ => rfl

theorem ignoresRows_pure (a : α) : IgnoresRows (pure a) := fun _ _ => rfl

theorem IgnoresRows.bind {x : Drafting α} {f : α → Drafting β} (hx : IgnoresRows x)
    (hf : ∀ a, IgnoresRows (f a)) : IgnoresRows (x >>= f) := by
  intro n scopes
  simp only [ExceptT.run_bind, StateT.run_bind, hx n scopes]
  rcases x.run.run n with ⟨r, m⟩
  cases r with
  | error e => rfl
  | ok a => exact hf a m scopes

theorem ignoresRows_pushDown (d : Draft) : IgnoresRows (Sql.pushDown d) := by
  refine (ignoresRows_lift d.finish).bind fun inner => ?_
  refine ignoresRows_freshAlias.bind fun source => ?_
  exact (ignoresRows_lift _).bind fun ordering => ignoresRows_pure _

end Ignoring

/-! ### What a sequence leaves on the stack -/

section Rising

variable {above : List Scope} {x y : Drafting Draft}

/-- With the rows `above` on top of the stack, the step `x` does what `y` does without them.  It
    leaves the row of the draft in their place, or at most one row if it fails, and changes nothing
    below. -/
def Rises (above : List Scope) (x y : Drafting Draft) : Prop :=
  ∀ n : Naming, ∃ left : List Scope,
    x.run.run { n with scopes := above ++ n.scopes } =
      ((y.run.run n).1, { (y.run.run n).2 with scopes := left ++ n.scopes }) ∧
    left.length ≤ 1 ∧ ∀ d, (y.run.run n).1 = .ok d → left = [d.row]

theorem Rises.bind {f g : Draft → Drafting Draft} (hx : Rises above x y) (hkeeps : KeepsNames y)
    (hf : ∀ d, Rises [d.row] (f d) (g d)) : Rises above (x >>= f) (y >>= g) := by
  intro n
  obtain ⟨left, hrun, hlength, hrow⟩ := hx n
  have hscopes : (y.run.run n).2.scopes = n.scopes := (hkeeps n).scopes
  simp only [ExceptT.run_bind, StateT.run_bind, hrun]
  rcases hy : y.run.run n with ⟨r, m⟩
  rw [hy] at hrow hscopes
  cases r with
  | error e => exact ⟨left, rfl, hlength, fun d hd => nomatch hd⟩
  | ok d =>
    obtain rfl := hrow d rfl
    have hrest := hf d m
    rwa [hscopes] at hrest

theorem rises_throw (e : CompileError) : Rises [] (throw e) (throw e) :=
  fun _ => ⟨[], rfl, Nat.zero_le 1, fun _ hd => nomatch hd⟩

theorem rises_pure (d : Draft) : Rises [d.row] (pure d) (pure d) :=
  fun _ => ⟨[d.row], rfl, Nat.le_refl 1, fun _ hd => by cases hd; rfl⟩

/-- A step that reads no names leaves the row where it is. -/
theorem rises_lift {α : Type} {row : Scope} (result : Except CompileError α) {f : α → Draft}
    (hrow : ∀ a, (f a).row = row) :
    Rises [row] (do return f (← result)) (do return f (← result)) := by
  intro n
  refine ⟨[row], ?_, Nat.le_refl 1, ?_⟩
  · cases result <;> rfl
  · intro d hd
    cases result with
    | error e => cases hd
    | ok a =>
      cases hd
      rw [hrow]

/-- The row that the sequence left on the stack is the one that is put in scope otherwise. -/
theorem rises_inRow {α : Type} {row : Scope} {step : Drafting α} (hkeeps : KeepsNames step)
    {f : α → Draft} (hrow : ∀ a, (f a).row = row) :
    Rises [row] (do return f (← step)) (do return f (← inRow row step)) := by
  intro n
  have hscopes : (step.run.run { n with scopes := row :: n.scopes }).2.scopes = row :: n.scopes :=
    (hkeeps _).scopes
  have hrun : (inRow row step).run.run n =
      ((step.run.run { n with scopes := row :: n.scopes }).1,
        { (step.run.run { n with scopes := row :: n.scopes }).2 with scopes := n.scopes }) := rfl
  simp only [ExceptT.run_bind, StateT.run_bind, hrun, List.singleton_append]
  generalize step.run.run { n with scopes := row :: n.scopes } = outcome at hscopes
  obtain ⟨r, ⟨scopes, derived, sourceAliases⟩⟩ := outcome
  cases hscopes
  refine ⟨[row], ?_, Nat.le_refl 1, ?_⟩
  · cases r <;> rfl
  · intro d hd
    cases r with
    | error e => cases hd
    | ok a =>
      cases hd
      rw [hrow]

/-- Pushing down changes no row but the top one, and that one only when it succeeds. -/
theorem rises_pushDown (d : Draft) : Rises [d.row] (pushDown d) (Sql.pushDown d) := by
  intro n
  have hrun := ignoresRows_pushDown d n ([d.row] ++ n.scopes)
  simp only [pushDown, ExceptT.run_bind, StateT.run_bind, hrun]
  rcases hpush : (Sql.pushDown d).run.run n with ⟨r, m⟩
  cases r with
  | error e => exact ⟨[d.row], rfl, Nat.le_refl 1, fun _ hd => nomatch hd⟩
  | ok d' =>
    refine ⟨[d'.row], ?_, Nat.le_refl 1, fun _ hd => by cases hd; rfl⟩
    obtain ⟨inner, ordering, -, -, -, rfl⟩ := gives_pushDown.1 hpush
    rfl

theorem rises_pushDownIf (needed : Bool) (d : Draft) :
    Rises [d.row] (pushDownIf needed d) (Sql.pushDownIf needed d) := by
  cases needed with
  | false => exact rises_pure d
  | true => exact rises_pushDown d

end Rising

/-! ### Cutting the stack back -/

section Truncating

variable {α : Type} {above : List Scope}

/-- With the rows `above` on top of the stack, the step `x` does what `y` does without them and
    leaves some rows in their place. -/
def Leaves (above : List Scope) (x y : Drafting α) : Prop :=
  ∀ n : Naming, ∃ left : List Scope, x.run.run { n with scopes := above ++ n.scopes } =
    ((y.run.run n).1, { (y.run.run n).2 with scopes := left ++ n.scopes })

theorem IgnoresRows.leaves {x : Drafting α} (hx : IgnoresRows x) : Leaves above x x :=
  fun n => ⟨above, hx n (above ++ n.scopes)⟩

theorem leaves_of_keepsNames {x : Drafting α} (hx : KeepsNames x) : Leaves [] x x := by
  intro n
  refine ⟨[], ?_⟩
  have hscopes : (x.run.run n).2.scopes = n.scopes := (hx n).scopes
  change x.run.run n = ((x.run.run n).1, { (x.run.run n).2 with scopes := n.scopes })
  rw [← hscopes]
  rfl

theorem Rises.leaves {x y : Drafting Draft} {f g : Draft → Drafting α} (hx : Rises above x y)
    (hkeeps : KeepsNames y) (hf : ∀ d, Leaves [d.row] (f d) (g d)) :
    Leaves above (x >>= f) (y >>= g) := by
  intro n
  obtain ⟨left, hrun, -, hrow⟩ := hx n
  have hscopes : (y.run.run n).2.scopes = n.scopes := (hkeeps n).scopes
  simp only [ExceptT.run_bind, StateT.run_bind, hrun]
  rcases hy : y.run.run n with ⟨r, m⟩
  rw [hy] at hrow hscopes
  cases r with
  | error e => exact ⟨left, rfl⟩
  | ok d =>
    obtain rfl := hrow d rfl
    have hrest := hf d m
    rwa [hscopes] at hrest

/-- Cutting the stack back takes off what the step left there and nothing else. -/
theorem truncating_eq {x y : Drafting α} (hx : Leaves [] x y) (hy : KeepsNames y) :
    truncating x = y := by
  funext n
  obtain ⟨left, hrun⟩ := hx n
  have hscopes : (y.run.run n).2.scopes = n.scopes := (hy n).scopes
  have hcut : (left ++ n.scopes).drop ((left ++ n.scopes).length - n.scopes.length) = n.scopes := by
    rw [List.length_append, Nat.add_sub_cancel, List.drop_left]
  have htruncated : (truncating x).run.run n = ((x.run.run n).1, { (x.run.run n).2 with
      scopes := (x.run.run n).2.scopes.drop
        ((x.run.run n).2.scopes.length - n.scopes.length) }) := rfl
  rw [List.nil_append] at hrun
  rw [hrun, hcut, ← hscopes] at htruncated
  exact htruncated

end Truncating

/-! ### The stack and the rows in scope -/

mutual

theorem expression_eq (caps : Capabilities) :
    (q : Query) → expression caps q = Sql.expression caps q
  | .constant _ | .parameter _ => by
    rw [expression, Sql.expression]
  | .member receiver? (.column alias? name) => by
    rw [expression, Sql.expression]
  | .member receiver? (.property p) => by
    rw [expression, Sql.expression, optionValue_eq caps receiver?]
  | .call receiver? m args => by
    rw [expression, Sql.expression, optionValue_eq caps receiver?, values_eq caps args]
  | .binary left op right => by
    rw [expression, Sql.expression, expression_eq caps left, expression_eq caps right]
  | .unary .not operand | .unary .negate operand => by
    rw [expression, Sql.expression, expression_eq caps operand]
  | .any rows predicate? => by
    have hkeeps := keepsNames_expression caps (.any rows predicate?)
    rw [Sql.expression] at hkeeps
    rw [expression, Sql.expression]
    refine truncating_eq ?_ hkeeps
    refine (rises_sequence caps rows).leaves (keepsNames_sequence caps rows) fun d => ?_
    refine (rises_meeting caps d predicate?).leaves (keepsNames_meeting caps d predicate?)
      fun d => ?_
    exact ((ignoresRows_lift _).bind fun s => ignoresRows_pure _).leaves
  | .source .. | .filter .. | .project .. | .skip .. | .take .. | .orderBy .. => by
    rw [expression, Sql.expression]

theorem optionValue_eq (caps : Capabilities) :
    (q? : Option Query) → optionValue caps q? = Sql.optionValue caps q?
  | none => by
    rw [optionValue, Sql.optionValue]
  | some q => by
    rw [optionValue, Sql.optionValue, expression_eq caps q]

theorem values_eq (caps : Capabilities) :
    (qs : List Query) → values caps qs = Sql.values caps qs
  | [] => by
    rw [values, Sql.values]
  | q :: rest => by
    rw [values, Sql.values, expression_eq caps q, values_eq caps rest]

theorem projection_eq (caps : Capabilities) :
    (columns : List (String × Query)) → projection caps columns = Sql.projection caps columns
  | [] => by
    rw [projection, Sql.projection]
  | (name, q) :: rest => by
    rw [projection, Sql.projection, expression_eq caps q, projection_eq caps rest]

/-- A sequence leaves its row on the stack, or at most one row if it fails. -/
theorem rises_sequence (caps : Capabilities) :
    (q : Query) → Rises [] (sequence caps q) (Sql.sequence caps q)
  | .source table alias? => by
    rw [sequence, Sql.sequence]
    exact fun _ => ⟨[_], rfl, Nat.le_refl 1, fun _ hd => by cases hd; rfl⟩
  | .filter rows key | .orderBy rows key _ => by
    rw [sequence, Sql.sequence, expression_eq caps key]
    refine (rises_sequence caps rows).bind (keepsNames_sequence caps rows) fun d => ?_
    refine (rises_pushDownIf _ d).bind (keepsNames_pushDownIf _ d) fun d => ?_
    exact rises_inRow (keepsNames_expression caps key) fun _ => rfl
  | .project rows columns => by
    rw [sequence, Sql.sequence, projection_eq caps columns]
    refine (rises_sequence caps rows).bind (keepsNames_sequence caps rows) fun d => ?_
    refine (rises_pushDownIf _ d).bind (keepsNames_pushDownIf _ d) fun d => ?_
    exact rises_inRow (keepsNames_projection caps columns) fun _ => rfl
  | .skip rows count | .take rows count => by
    rw [sequence, Sql.sequence]
    refine (rises_sequence caps rows).bind (keepsNames_sequence caps rows) fun d => ?_
    refine (rises_pushDownIf _ d).bind (keepsNames_pushDownIf _ d) fun d => ?_
    exact rises_lift _ fun _ => rfl
  | .any .. | .member .. | .call .. | .constant _ | .parameter _ | .binary .. | .unary .. => by
    rw [sequence, Sql.sequence]
    exact rises_throw _

theorem rises_meeting (caps : Capabilities) (d : Draft) : (predicate? : Option Query) →
    Rises [d.row] (meeting caps d predicate?) (Sql.meeting caps d predicate?)
  | none => by
    rw [meeting, Sql.meeting]
    exact rises_pure d
  | some predicate => by
    rw [meeting, Sql.meeting, expression_eq caps predicate]
    refine (rises_pushDownIf _ d).bind (keepsNames_pushDownIf _ d) fun d => ?_
    exact rises_inRow (keepsNames_expression caps predicate) fun _ => rfl

end

/-- With the stack and with rows that are put in scope and taken out, a statement notes the aliases
    of tables and then does one and the same step. -/
theorem exists_answering_step (caps : Capabilities) (q : Query) : ∃ step : Drafting Select,
    KeepsNames step ∧
      Sql.statement caps q = (do
        modify fun n => { n with sourceAliases := n.sourceAliases ++ q.sourceAliases }
        step) ∧
      statement caps q = (do
        modify fun n => { n with sourceAliases := n.sourceAliases ++ q.sourceAliases }
        step) := by
  by_cases hany : ∃ rows predicate?, q = .any rows predicate?
  · obtain ⟨rows, predicate?, rfl⟩ := hany
    have hkeeps : KeepsNames (do
        caps.require .topLevelAny
        return answering (← Sql.expression caps (.any rows predicate?))) :=
      (keepsNames_lift _).bind fun _ =>
        (keepsNames_expression caps _).bind fun e => keepsNames_pure _
    refine ⟨_, hkeeps, ?_, ?_⟩
    · rw [Sql.statement]
    · rw [statement, expression_eq, truncating_eq (leaves_of_keepsNames hkeeps) hkeeps]
  · have hother : ∀ rows predicate?, q = .any rows predicate? → False :=
      fun rows predicate? hq => hany ⟨rows, predicate?, hq⟩
    by_cases hsequence : q.isSequence = true
    · have hkeeps : KeepsNames (do
          let d ← Sql.sequence caps q
          d.finish) :=
        (keepsNames_sequence caps q).bind fun d => keepsNames_lift _
      have hleaves : Leaves [] (do
          let d ← sequence caps q
          d.finish) (do
          let d ← Sql.sequence caps q
          d.finish) :=
        (rises_sequence caps q).leaves (keepsNames_sequence caps q)
          fun d => (ignoresRows_lift _).leaves
      refine ⟨_, hkeeps, ?_, ?_⟩
      · rw [Sql.statement, if_pos hsequence]
        exact hother
      · rw [statement, if_pos hsequence, truncating_eq hleaves hkeeps]
        exact hother
    · have hkeeps := keepsNames_throw (α := Select) (.notAQuery q.kind)
      refine ⟨_, hkeeps, ?_, ?_⟩
      · rw [Sql.statement, if_neg hsequence]
        exact hother
      · rw [statement, if_neg hsequence, truncating_eq (leaves_of_keepsNames hkeeps) hkeeps]
        exact hother

theorem statement_eq (caps : Capabilities) (q : Query) :
    statement caps q = Sql.statement caps q := by
  obtain ⟨step, -, hstatement, hstacked⟩ := exists_answering_step caps q
  rw [hstatement, hstacked]

end Stacked

/-- **The rows in scope are the same after a statement or an expression as before it**, whether it
    succeeded or failed, and with any rows in scope.  The same results, errors and names come from
    one stack of rows that is changed in place and cut back only where a test for rows and where a
    statement ends: of a sequence at most one row is left on it, and no row below is changed. -/
theorem scopes_restored (caps : Capabilities) (q : Query) (n : Naming) :
    ((expression caps q).run.run n).2.scopes = n.scopes ∧
    ((statement caps q).run.run n).2.scopes = n.scopes ∧
    (Stacked.expression caps q).run.run n = (expression caps q).run.run n ∧
    (Stacked.statement caps q).run.run n = (statement caps q).run.run n ∧
    ∃ left : List Scope, (Stacked.sequence caps q).run.run n =
        (((sequence caps q).run.run n).1,
          { ((sequence caps q).run.run n).2 with scopes := left ++ n.scopes }) ∧
      left.length ≤ 1 ∧ ∀ d, ((sequence caps q).run.run n).1 = .ok d → left = [d.row] := by
  refine ⟨(keepsNames_expression caps q n).scopes, ?_, ?_, ?_, Stacked.rises_sequence caps q n⟩
  · obtain ⟨step, hkeeps, hstatement, -⟩ := Stacked.exists_answering_step caps q
    rw [hstatement]
    exact (hkeeps { n with sourceAliases := n.sourceAliases ++ q.sourceAliases }).scopes
  · rw [Stacked.expression_eq]
  · rw [Stacked.statement_eq]

end QueryLoom.Sql
