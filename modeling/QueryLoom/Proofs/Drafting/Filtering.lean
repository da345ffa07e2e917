/-
  QueryLoom/Proofs/Drafting/Filtering.lean
  ========================================
  **Ways to filter that compile alike.**  A filter over a filter and one filter with both
  conditions have the same outcome, text, bindings and error alike.  So have a test for rows
  that meet a condition and a test for rows of the filtered sequence.

  * `inRow_bind`: a row put in scope for two steps is put in scope for each, because what a
    step does to the names it undoes.
  * `meeting_meeting` and `meeting_and`: both ways of filtering take over the same two
    conditions from the same draft.  The draft is settled by the first condition, so the
    second one finds nothing to push down.
  * `render_filtered_filtered`: two conditions in a row have the pieces of their
    conjunction, parentheses included, and hold the same parameters.
-/
import QueryLoom.Proofs.Drafting.Naming
import QueryLoom.Sql.Statement

namespace QueryLoom.Sql

/-! ### Steps that do the same -/

section Steps

variable {α β : Type}

/-- Two steps are the same if they do the same to all names. -/
theorem Drafting.ext {x y : Drafting α} (h : ∀ n : Naming, x.run.run n = y.run.run n) : x = y :=
  ExceptT.ext (StateT.ext h)

/-- What follows a step only matters for what the step gives. -/
theorem bind_congr_of_gives {x : Drafting α} {f g : α → Drafting β}
    (h : ∀ n a m, Gives x n a m → f a = g a) : x >>= f = x >>= g := by
  refine Drafting.ext fun n => ?_
  simp only [ExceptT.run_bind, StateT.run_bind]
  rcases hrun : x.run.run n with ⟨r, m⟩
  cases r with
  | ok a => exact congrArg (fun y : Drafting β => y.run.run m) (h n a m hrun)
  | error e => rfl

/-- A row in scope for two steps is in scope for each of them. -/
theorem inRow_bind {x : Drafting α} (hx : KeepsNames x) (row : Scope) (f : α → Drafting β) :
    inRow row (x >>= f) = inRow row x >>= fun a => inRow row (f a) := by
  refine Drafting.ext fun n => ?_
  have hscopes := (hx { n with scopes := row :: n.scopes }).scopes
  have hleft : (inRow row (x >>= f)).run.run n =
      (((x >>= f).run.run { n with scopes := row :: n.scopes }).1,
        { ((x >>= f).run.run { n with scopes := row :: n.scopes }).2 with
          scopes := n.scopes }) := rfl
  have hfirst : (inRow row x).run.run n =
      ((x.run.run { n with scopes := row :: n.scopes }).1,
        { (x.run.run { n with scopes := row :: n.scopes }).2 with scopes := n.scopes }) := rfl
  rw [hleft]
  simp only [ExceptT.run_bind, StateT.run_bind, hfirst]
  rcases hrun : x.run.run { n with scopes := row :: n.scopes } with ⟨r, scopes, derived, aliases⟩
  rw [hrun] at hscopes
  obtain rfl : scopes = row :: n.scopes := hscopes
  cases r with
  | ok a => rfl
  | error e => rfl

/-- The outcome of a step and a check is the check of the step's outcome. -/
theorem outcome_bind_lift (x : Drafting α) (f : α → Except CompileError β) (n : Naming) :
    ((x >>= fun a => liftM (f a)).run.run n).1 = (x.run.run n).1.bind f := by
  simp only [ExceptT.run_bind, StateT.run_bind]
  rcases x.run.run n with ⟨r, m⟩
  cases r with
  | ok a =>
    show ((liftM (f a) : Drafting β).run.run m).1 = f a
    cases f a <;> rfl
  | error e => rfl

end Steps

/-! ### Two conditions of a draft -/

/-- A draft has no need to be pushed down for a filter. -/
def Draft.isSettled (d : Draft) : Bool := !(d.isPaged || d.projected)

/-- What is pushed down where a filter needs it is settled. -/
theorem settled_of_gives {d d' : Draft} {n m : Naming}
    (h : Gives (pushDownIf (d.isPaged || d.projected) d) n d' m) : d'.isSettled = true := by
  rw [gives_pushDownIf] at h
  split at h
  · obtain ⟨hpaging, hprojected⟩ := flat_of_gives_pushDown h
    simp [Draft.isSettled, Draft.isPaged, hpaging, hprojected, Paging.isEmpty]
  · rename_i hneeded
    obtain ⟨rfl, _⟩ := h
    simpa [Draft.isSettled] using hneeded

/-- Two conditions, one after the other. -/
def conditions (caps : Capabilities) (p q : Query) : Drafting (Expr × Expr) := do
  let left ← expression caps p
  let right ← expression caps q
  return (asPredicate caps left, asPredicate caps right)

/-- A settled draft that meets a condition is not pushed down. -/
theorem meeting_of_settled (caps : Capabilities) {d : Draft} (hd : d.isSettled = true) (p : Query) :
    meeting caps d (some p) =
      inRow d.row (expression caps p) >>= fun e => pure (d.filtered (asPredicate caps e)) := by
  have hneeded : (d.isPaged || d.projected) = false := by simpa [Draft.isSettled] using hd
  rw [meeting, hneeded]
  exact pure_bind d _

theorem inRow_pure {α : Type} (row : Scope) (a : α) : inRow row (pure a) = pure a := rfl

/-- A draft that meets two conditions takes over both in one row. -/
theorem meeting_meeting (caps : Capabilities) (d : Draft) (p q : Query) :
    (meeting caps d (some p) >>= fun d => meeting caps d (some q)) =
      pushDownIf (d.isPaged || d.projected) d >>= fun d =>
        inRow d.row (conditions caps p q) >>= fun es =>
          pure ((d.filtered es.1).filtered es.2) := by
  rw [meeting]
  simp only [bind_assoc, pure_bind]
  refine bind_congr_of_gives fun n d' m hd' => ?_
  have hsettled : ∀ e, (d'.filtered e).isSettled = true := fun e =>
    show d'.isSettled = true from settled_of_gives hd'
  have hrow : ∀ e, (d'.filtered e).row = d'.row := fun _ => rfl
  simp only [conditions, meeting_of_settled caps (hsettled _), hrow,
    inRow_bind (keepsNames_expression caps _), inRow_pure, bind_assoc, pure_bind]

/-- A draft that meets a conjunction takes over both sides in one row. -/
theorem meeting_and (caps : Capabilities) (d : Draft) (p q : Query) :
    meeting caps d (some (.binary p .and q)) =
      pushDownIf (d.isPaged || d.projected) d >>= fun d =>
        inRow d.row (conditions caps p q) >>= fun es =>
          pure (d.filtered (.binary es.1 .and es.2)) := by
  have hexpression : expression caps (.binary p .and q) =
      conditions caps p q >>= fun es => pure (.binary es.1 .and es.2) := by
    rw [expression, conditions]
    simp only [bind_assoc, pure_bind]
    rfl
  have hconditions : KeepsNames (conditions caps p q) :=
    (keepsNames_expression caps p).bind fun _ =>
      (keepsNames_expression caps q).bind fun _ => keepsNames_pure _
  rw [meeting, hexpression]
  simp only [inRow_bind hconditions, inRow_pure, bind_assoc, pure_bind]
  rfl

/-- A filtered sequence meets its condition. -/
theorem sequence_filter (caps : Capabilities) (rows predicate : Query) :
    sequence caps (.filter rows predicate) =
      sequence caps rows >>= fun d => meeting caps d (some predicate) := by
  rw [sequence]
  simp only [meeting]

/-! ### Two conditions of a statement -/

/-- The statement with one more condition. -/
def Select.filtered (s : Select) (condition : Expr) : Select :=
  { s with conditions := s.conditions ++ [condition] }

theorem Draft.finish_filtered (d : Draft) (condition : Expr) :
    (d.filtered condition).finish = d.finish.map fun s => s.filtered condition := by
  obtain ⟨⟨columns, origin, conditions, ordering, window?⟩, row, paging, projected⟩ := d
  simp only [Draft.finish, Draft.filtered]
  cases columns with
  | cons c rest => cases paging.window? <;> rfl
  | nil => cases origin.alias? with
    | none => rfl
    | some source => cases paging.window? <;> rfl

/-- Only a conjunction binds as tightly as one. -/
theorem Expr.applies_and {e : Expr} (h : e.precedence = Precedence.and) :
    e.applies .and = true := by
  cases e with
  | binary left op right => cases op <;> first | rfl | cases h
  | unary op operand => cases op <;> cases h
  | literal v =>
    rw [Expr.precedence] at h
    split at h <;> cases h
  | _ => cases h

/-- On the right of a conjunction an operand is parenthesized as it is among conditions. -/
theorem Expr.guarded_rightLeast_and (e : Expr) (ps : List Piece) :
    e.guarded (BinaryOperator.and.rightLeast e) ps = e.guarded Precedence.and ps := by
  unfold BinaryOperator.rightLeast
  cases happlies : e.applies .and with
  | true => rfl
  | false =>
    have hne : e.precedence ≠ Precedence.and := fun h => by
      rw [Expr.applies_and h] at happlies
      cases happlies
    have hiff : e.precedence < Precedence.and + 1 ↔ e.precedence < Precedence.and := by
      exact ⟨fun h => Nat.lt_of_le_of_ne (Nat.le_of_lt_succ h) hne, Nat.lt_succ_of_lt⟩
    simp only [Expr.guarded, BinaryOperator.precedence, Bool.false_and, Bool.false_eq_true,
      if_false, hiff]

/-- A conjunction among conditions has the pieces of both sides among them. -/
theorem Expr.guarded_and (caps : Capabilities) (a b : Expr) :
    (Expr.binary a .and b).guarded Precedence.and ((Expr.binary a .and b).pieces caps) =
      a.guarded Precedence.and (a.pieces caps) ++ between "AND" ++
        b.guarded Precedence.and (b.pieces caps) := by
  have hnone : ∀ ps, (Expr.binary a .and b).guarded Precedence.and ps = ps := fun ps => rfl
  rw [hnone, Expr.pieces, Expr.guarded_rightLeast_and]
  simp [between, BinaryOperator.pieces, BinaryOperator.leftLeast, BinaryOperator.precedence,
    Precedence.and, Precedence.comparison]

theorem conditionsPieces_append (caps : Capabilities) (es fs : List Expr) :
    conditionsPieces caps (es ++ fs) = conditionsPieces caps es ++ conditionsPieces caps fs := by
  induction es with
  | nil => simp [conditionsPieces]
  | cons e rest ih => simp [conditionsPieces, ih]

theorem walkList_append (es fs : List Expr) : walkList (es ++ fs) = walkList es ++ walkList fs := by
  induction es with
  | nil => simp [walkList]
  | cons e rest ih => simp [walkList, ih]

/-- The last two parts of a list may be joined beforehand. -/
theorem intercalate_joined {α : Type} (sep a b : List α) (parts : List (List α)) :
    sep.intercalate (parts ++ [a, b]) = sep.intercalate (parts ++ [a ++ sep ++ b]) := by
  induction parts with
  | nil => simp
  | cons p rest ih =>
    rw [List.cons_append, List.cons_append, List.intercalate_cons_of_ne_nil (by simp),
      List.intercalate_cons_of_ne_nil (by simp), ih]

theorem pieces_filtered_filtered (caps : Capabilities) (s : Select) (a b : Expr) :
    ((s.filtered a).filtered b).pieces caps = (s.filtered (.binary a .and b)).pieces caps := by
  obtain ⟨columns, origin, conditions, ordering, window?⟩ := s
  have hjoined : (between "AND").intercalate (conditionsPieces caps (conditions ++ [a] ++ [b])) =
      (between "AND").intercalate (conditionsPieces caps (conditions ++ [.binary a .and b])) := by
    rw [List.append_assoc, conditionsPieces_append caps conditions,
      conditionsPieces_append caps conditions]
    simp only [List.cons_append, List.nil_append, conditionsPieces, Expr.guarded_and]
    exact intercalate_joined _ _ _ _
  have hsome : ∀ es e, (conditionsPieces caps (es ++ [e])).isEmpty = false := by
    intro es e
    rw [conditionsPieces_append]
    simp [conditionsPieces]
  simp only [Select.filtered, Select.pieces, hjoined, hsome]

theorem parameterNames_filtered_filtered (s : Select) (a b : Expr) :
    ((s.filtered a).filtered b).parameterNames =
      (s.filtered (.binary a .and b)).parameterNames := by
  obtain ⟨columns, origin, conditions, ordering, window?⟩ := s
  have hand : (Expr.binary a .and b).walk = .binary a .and b :: (a.walk ++ b.walk) := by
    rw [Expr.walk]
  simp only [Select.parameterNames, Select.filtered, Select.walk, walkList_append, walkList, hand,
    List.filterMap_append, List.filterMap_cons, Expr.parameterName?, List.append_nil,
    List.append_assoc]

/-- Two conditions in a row are written as their conjunction. -/
theorem render_filtered_filtered (caps : Capabilities) (placeholders : Placeholders) (s : Select)
    (a b : Expr) :
    render caps placeholders ((s.filtered a).filtered b) =
      render caps placeholders (s.filtered (.binary a .and b)) := by
  simp only [render, pieces_filtered_filtered, parameterNames_filtered_filtered]

/-! ### Whole queries -/

/-- A draft of a query with two conditions that it has to meet. -/
def meetingBoth (caps : Capabilities) (rows p q : Query) : Drafting (Draft × Expr × Expr) := do
  modify fun names => { names with
    sourceAliases := names.sourceAliases ++ (rows.sourceAliases ++ p.sourceAliases ++
      q.sourceAliases) }
  let d ← sequence caps rows
  let d ← pushDownIf (d.isPaged || d.projected) d
  let es ← inRow d.row (conditions caps p q)
  return (d, es)

theorem statement_filter_filter (caps : Capabilities) (rows p q : Query) :
    statement caps (.filter (.filter rows p) q) =
      meetingBoth caps rows p q >>= fun x =>
        liftM ((x.1.filtered x.2.1).filtered x.2.2).finish := by
  unfold statement meetingBoth
  simp only [Query.isSequence, if_true, Query.sourceAliases, sequence_filter, bind_assoc,
    meeting_meeting, pure_bind]

theorem statement_filter_and (caps : Capabilities) (rows p q : Query) :
    statement caps (.filter rows (.binary p .and q)) =
      meetingBoth caps rows p q >>= fun x =>
        liftM (x.1.filtered (.binary x.2.1 .and x.2.2)).finish := by
  unfold statement meetingBoth
  simp only [Query.isSequence, if_true, Query.sourceAliases, sequence_filter, bind_assoc,
    meeting_and, pure_bind, List.append_assoc]

/-- Testing for rows that meet a condition is testing the filtered rows, at any depth. -/
theorem expression_any_filter (caps : Capabilities) (rows predicate : Query) :
    expression caps (.any (.filter rows predicate) none) =
      expression caps (.any rows (some predicate)) := by
  rw [expression, expression, sequence_filter]
  simp only [bind_assoc, meeting, pure_bind]

theorem statement_any_filter (caps : Capabilities) (rows predicate : Query) :
    statement caps (.any (.filter rows predicate) none) =
      statement caps (.any rows (some predicate)) := by
  unfold statement
  simp only [expression_any_filter, Query.sourceAliases, Query.optionAliases, List.append_nil]

/-- Filtering twice compiles as filtering by the conjunction, and testing for rows that meet
    a condition compiles as testing the filtered rows. -/
theorem compile_filters_alike (caps : Capabilities) (placeholders : Placeholders)
    (rows p q : Query) :
    compile caps placeholders (.filter (.filter rows p) q) =
        compile caps placeholders (.filter rows (.binary p .and q)) ∧
      compile caps placeholders (.any rows (some p)) =
        compile caps placeholders (.any (.filter rows p) none) := by
  constructor
  · unfold compile Select.ofQuery
    rw [statement_filter_filter, statement_filter_and, outcome_bind_lift, outcome_bind_lift]
    rcases ((meetingBoth caps rows p q).run.run {}).1 with e | ⟨d, a, b⟩
    · rfl
    · simp only [Except.bind, Draft.finish_filtered]
      cases d.finish with
      | error e => rfl
      | ok s => exact render_filtered_filtered caps placeholders s a b
  · unfold compile Select.ofQuery
    rw [statement_any_filter]

end QueryLoom.Sql
