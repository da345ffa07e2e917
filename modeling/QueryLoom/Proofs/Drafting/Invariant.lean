/-
  QueryLoom/Proofs/Drafting/Invariant.lean
  ========================================
  **What every step of drafting keeps.**  An invariant says something of expressions, of
  those that stand as values and as conditions, and of statements.  Its laws are one for each
  way in which drafting makes an expression, and one for statements, which have to have the
  right expressions in every clause (`Select.Consists`).

  Drafting only puts expressions into clauses, moves clauses into derived tables and renames
  their sources, so the laws are enough for every statement of a query.

    * `Invariant.ensures_expression`, `Invariant.ensures_sequence` — what the steps give
      satisfies the invariant;
    * `Invariant.of_ofQuery` — so does the statement of a query.
-/
import QueryLoom.Proofs.Drafting.Outcome

namespace QueryLoom.Sql

/-! ### Statements by their clauses -/

/-- The conditions of the statement satisfy `C` and all its other expressions `V`, and rows
    from a statement come from one that satisfies `S`. -/
structure Select.Consists (V C : Expr → Prop) (S : Select → Prop) (s : Select) : Prop where
  columns : ∀ c ∈ s.columns, V c.expr
  origin : ∀ rows source, s.origin = .derived rows source → S rows
  conditions : ∀ e ∈ s.conditions, C e
  ordering : ∀ k ∈ s.ordering, V k.expr
  window : ∀ w ∈ s.window?, V w.lower ∧ ∀ e ∈ w.upper?, V e

/-- A property of expressions, values, conditions and statements that drafting keeps. -/
structure Invariant (caps : Capabilities) where
  expr : Expr → Prop
  value : Expr → Prop
  condition : Expr → Prop
  select : Select → Prop
  literal (v : Value) : expr (.literal v)
  parameter (p : Parameter) : expr (.parameter p)
  column (source name : String) : expr (.column source name)
  allColumns (source : String) : expr (.allColumns source)
  asValue {e : Expr} : expr e → value (asValue caps e)
  asPredicate {e : Expr} : expr e → condition (asPredicate caps e)
  apply {op : Operation} {arity : Nat} {x : Mapping} {receiver? : Option Expr}
    {args : List Expr} {e : Expr} : Mapping.find op arity = .ok x →
    x.apply caps receiver? args = .ok e → (∀ o ∈ receiver?, value o) →
    (∀ o ∈ args, value o) → expr e
  isNull {e : Expr} (negated : Bool) : value e → expr (.isNull e negated)
  logical {op : QueryLoom.BinaryOperator} {l r : Expr} : op.isLogical = true → condition l →
    condition r → expr (.binary l (.ofQuery op) r)
  operation {op : QueryLoom.BinaryOperator} {l r : Expr} : op.isLogical = false → value l →
    value r → expr (.binary l (.ofQuery op) r)
  not {e : Expr} : condition e → expr (.unary .not e)
  negate {e : Expr} : value e → expr (.unary .negate e)
  existsRow {s : Select} : select s → expr (.existsRow s)
  rename {e : Expr} (old new : String) : e.hasSubquery = false → value e →
    value (e.rename old new)
  outcome {s : Select} (yes no : Value) : expr (.existsRow s) →
    value (.case [⟨.existsRow s, .literal yes⟩] (some (.literal no)))
  consists {s : Select} : s.Consists value condition select → select s

namespace Invariant

variable {caps : Capabilities} (K : Invariant caps)

/-! ### Values -/

theorem value_literal (v : Value) : K.value (.literal v) := K.asValue (K.literal v)

theorem value_parameter (p : Parameter) : K.value (.parameter p) := K.asValue (K.parameter p)

theorem value_column (source name : String) : K.value (.column source name) :=
  K.asValue (K.column source name)

theorem value_allColumns (source : String) : K.value (.allColumns source) :=
  K.asValue (K.allColumns source)

theorem value_add {l r : Expr} (hl : K.value l) (hr : K.value r) :
    K.value (.binary l .add r) := by
  have hsum : K.expr (.binary l (.ofQuery .add) r) := K.operation rfl hl hr
  exact K.asValue hsum

theorem value_of_rowCount {operator : String} {count : Query} {e : Expr}
    (h : Paging.rowCount operator count = .ok e) : K.value e := by
  unfold Paging.rowCount at h
  cases count <;> simp only [bind, Except.bind, pure, Except.pure, reduceCtorEq] at h
  case constant v =>
    split at h
    · cases h
    · cases h
      exact K.value_literal v
  case parameter p =>
    split at h
    · cases h
    · cases h
      exact K.value_parameter p

/-! ### Drafts -/

/-- The statement of the draft consists of the right expressions as far as it is made, and its
    counts are values. -/
structure Keeps (d : Draft) : Prop where
  select : d.select.Consists K.value K.condition K.select
  skip : ∀ e ∈ d.paging.skip?, K.value e
  take : ∀ e ∈ d.paging.take?, K.value e

variable {K}

theorem window_of_counts {p : Paging} {w? : Option Window} (h : p.window? = .ok w?)
    (hskip : ∀ e ∈ p.skip?, K.value e) (htake : ∀ e ∈ p.take?, K.value e) :
    ∀ w ∈ w?, K.value w.lower ∧ ∀ e ∈ w.upper?, K.value e := by
  obtain ⟨_, _, rfl⟩ := window?_eq_ok h
  rcases p with ⟨_ | skip, _ | take⟩
  · simp
  · simpa using htake
  · have hskip : K.value skip := hskip skip rfl
    have hlower := K.value_add hskip (K.value_literal (.int32 1))
    rintro w ⟨⟩
    exact ⟨hlower, by rintro _ ⟨⟩; exact K.value_literal _⟩
  · have hskip : K.value skip := hskip skip rfl
    have htake : K.value take := htake take rfl
    have hlower := K.value_add hskip (K.value_literal (.int32 1))
    rintro w ⟨⟩
    exact ⟨hlower, by rintro _ ⟨⟩; exact K.value_add hskip htake⟩

end Invariant

/-- A finished draft has the columns of the draft, or all of its origin. -/
theorem Draft.finish_inv {d : Draft} {s : Select} (h : d.finish = .ok s) :
    ∃ columns w, d.paging.window? = .ok w ∧
      (columns = d.select.columns ∨ ∃ source, columns = [⟨.allColumns source, none⟩]) ∧
      s = { d.select with columns, window? := w } := by
  rcases d with ⟨⟨columns, origin, conditions, ordering, window?⟩, row, paging, projected⟩
  cases hw : paging.window? with
  | error e =>
    cases columns <;> cases halias : origin.alias? <;>
      simp [finish, hw, halias, bind, Except.bind] at h
  | ok w =>
    cases columns with
    | nil =>
      cases halias : origin.alias? with
      | none => simp [finish, halias, bind, Except.bind] at h
      | some source =>
        simp only [finish, halias, hw, bind, Except.bind, pure, Except.pure, Except.ok.injEq] at h
        exact ⟨_, w, rfl, .inr ⟨source, rfl⟩, h.symm⟩
    | cons c rest =>
      simp only [finish, hw, bind, Except.bind, pure, Except.pure, Except.ok.injEq] at h
      exact ⟨_, w, rfl, .inl rfl, h.symm⟩

namespace Invariant

variable {caps : Capabilities} {K : Invariant caps} {d : Draft}

theorem Keeps.finish {s : Select} (hd : K.Keeps d) (h : d.finish = .ok s) :
    s.Consists K.value K.condition K.select := by
  obtain ⟨columns, w, hw, hshown, rfl⟩ := Draft.finish_inv h
  refine { hd.select with columns := ?_, window := window_of_counts hw hd.skip hd.take }
  rcases hshown with rfl | ⟨source, rfl⟩
  · exact hd.select.columns
  · exact List.forall_mem_singleton.mpr (K.value_allColumns source)

theorem Keeps.existence {s : Select} (hd : K.Keeps d) (h : d.existence = .ok s) :
    K.select s := by
  have hkept : ∀ k ∈ (if d.isPaged then d.select.ordering else []), K.value k.expr := by
    split
    · exact hd.select.ordering
    · simp
  refine K.consists (Keeps.finish (d := { d with select := { d.select with
    ordering := if d.isPaged then d.select.ordering else [], columns := [⟨.int 1, none⟩] } })
    ⟨?_, hd.skip, hd.take⟩ h)
  exact { hd.select with
    columns := List.forall_mem_singleton.mpr (K.value_literal _), ordering := hkept }

theorem value_of_carryOrdering {s : Select} {source : String} {keys : List OrderKey}
    (hs : s.Consists K.value K.condition K.select) (h : s.carryOrdering source = .ok keys) :
    ∀ k ∈ keys, K.value k.expr := by
  intro k hk
  obtain ⟨old, hold, hcarry⟩ := exists_carry_of_carryOrdering h hk
  rcases carry_eq_some hcarry with ⟨_, _, name, _, _, hkey⟩ | ⟨old', _, _, hsubquery, hkey⟩
  · rw [hkey]
    exact K.value_column source name
  · rw [hkey]
    exact K.rename old' source hsubquery (hs.ordering old hold)

/-- A draft that was pushed down reads from a statement that the invariant holds of. -/
theorem Keeps.pushDown {d' : Draft} {n m : Naming} (hd : K.Keeps d)
    (h : Gives (pushDown d) n d' m) : K.Keeps d' := by
  obtain ⟨inner, keys, hfinish, hkeys, _, rfl⟩ := gives_pushDown.mp h
  have hinner := hd.finish hfinish
  have hrows : K.select (if inner.isPaged then inner else { inner with ordering := [] }) := by
    split
    · exact K.consists hinner
    · exact K.consists { hinner with ordering := List.forall_mem_nil _ }
  refine ⟨⟨List.forall_mem_nil _, ?_, List.forall_mem_nil _, value_of_carryOrdering hinner hkeys,
    ?_⟩, ?_, ?_⟩
  · rintro rows source ⟨⟩
    exact hrows
  all_goals
    intro x hx
    cases hx

theorem ensures_pushDownIf {needed : Bool} (hd : K.Keeps d) :
    Ensures K.Keeps (pushDownIf needed d) := by
  cases needed with
  | false => exact ensures_pure hd
  | true => exact fun n m d' h => hd.pushDown h

theorem keeps_reading (table source : String) (row : Scope) :
    K.Keeps { select := .reading (.table table source), row } := by
  refine ⟨⟨List.forall_mem_nil _, ?_, List.forall_mem_nil _, List.forall_mem_nil _, ?_⟩, ?_, ?_⟩
  · rintro rows source ⟨⟩
  all_goals
    intro x hx
    cases hx

theorem Keeps.filtered {e : Expr} (hd : K.Keeps d) (he : K.condition e) :
    K.Keeps (d.filtered e) := by
  have hconditions : ∀ c ∈ d.select.conditions ++ [e], K.condition c :=
    List.forall_mem_append.mpr ⟨hd.select.conditions, List.forall_mem_singleton.mpr he⟩
  exact ⟨{ hd.select with conditions := hconditions }, hd.skip, hd.take⟩

theorem Keeps.ordered {key : OrderKey} (hd : K.Keeps d) (hkey : K.value key.expr) :
    K.Keeps (d.ordered key) := by
  have hordering : ∀ k ∈ d.select.ordering ++ [key], K.value k.expr :=
    List.forall_mem_append.mpr ⟨hd.select.ordering, List.forall_mem_singleton.mpr hkey⟩
  exact ⟨{ hd.select with ordering := hordering }, hd.skip, hd.take⟩

theorem Keeps.projecting {cs : List Column} (hd : K.Keeps d) (hcs : ∀ c ∈ cs, K.value c.expr) :
    K.Keeps (d.projecting cs) :=
  ⟨{ hd.select with columns := hcs }, hd.skip, hd.take⟩

/-! ### The steps -/

theorem ensures_resolve (alias? : Option String) (name : String) :
    Ensures K.expr (resolve alias? name) := by
  intro n m e h
  obtain ⟨row, _, rfl, _⟩ := gives_resolve.mp h
  exact K.column row.actual name

variable (K)

mutual

/-- An expression that is taken over satisfies the invariant. -/
theorem ensures_expression : (q : Query) → Ensures K.expr (expression caps q)
  | .constant v => by
    rw [expression]
    exact ensures_pure (K.literal v)
  | .parameter p => by
    rw [expression]
    exact ensures_pure (K.parameter p)
  | .member receiver? (.column alias? name) => by
    rw [expression]
    split
    · exact ensures_throw _
    · exact ensures_resolve alias? name
  | .member receiver? (.property p) => by
    rw [expression]
    refine (ensures_optionValue receiver?).bind fun receiver? hreceiver => ?_
    refine (ensures_lift fun mapping hmapping => hmapping).bind fun mapping hmapping => ?_
    exact ensures_lift fun e he => K.apply hmapping he hreceiver (List.forall_mem_nil _)
  | .call receiver? m args => by
    rw [expression]
    refine (ensures_lift fun mapping hmapping => hmapping).bind fun mapping hmapping => ?_
    refine (ensures_optionValue receiver?).bind fun receiver? hreceiver => ?_
    refine (ensures_values args).bind fun es hes => ?_
    exact ensures_lift fun e he => K.apply hmapping he hreceiver hes
  | .binary left op right => by
    rw [expression]
    split
    · refine (ensures_expression right).bind fun e he => ensures_pure ?_
      exact K.isNull _ (K.asValue he)
    · split
      · refine (ensures_expression left).bind fun e he => ensures_pure ?_
        exact K.isNull _ (K.asValue he)
      · refine (ensures_expression left).bind fun l hl => ?_
        refine (ensures_expression right).bind fun r hr => ensures_pure ?_
        split
        · rename_i hlogical
          exact K.logical hlogical (K.asPredicate hl) (K.asPredicate hr)
        · rename_i hlogical
          exact K.operation (Bool.not_eq_true _ |>.mp hlogical) (K.asValue hl) (K.asValue hr)
  | .unary .not operand => by
    rw [expression]
    refine (ensures_expression operand).bind fun e he => ensures_pure ?_
    exact K.not (K.asPredicate he)
  | .unary .negate operand => by
    rw [expression]
    refine (ensures_expression operand).bind fun e he => ensures_pure ?_
    exact K.negate (K.asValue he)
  | .any rows predicate? => by
    rw [expression]
    refine (ensures_sequence rows).bind fun d hd => ?_
    refine (ensures_meeting hd predicate?).bind fun d hd => ?_
    refine (ensures_lift fun s hs => hd.existence hs).bind fun s hs => ensures_pure ?_
    exact K.existsRow hs
  | .source .. | .filter .. | .project .. | .skip .. | .take .. | .orderBy .. => by
    rw [expression]
    exact ensures_throw _

theorem ensures_optionValue : (q? : Option Query) →
    Ensures (fun e? => ∀ e ∈ e?, K.value e) (optionValue caps q?)
  | none => by
    rw [optionValue]
    exact ensures_pure (by simp)
  | some q => by
    rw [optionValue]
    refine (ensures_expression q).bind fun e he => ensures_pure ?_
    simpa using K.asValue he

theorem ensures_values : (qs : List Query) →
    Ensures (fun es => ∀ e ∈ es, K.value e) (values caps qs)
  | [] => by
    rw [values]
    exact ensures_pure (List.forall_mem_nil _)
  | q :: rest => by
    rw [values]
    refine (ensures_expression q).bind fun e he => ?_
    refine (ensures_values rest).bind fun es hes => ensures_pure ?_
    exact List.forall_mem_cons.mpr ⟨K.asValue he, hes⟩

theorem ensures_projection : (columns : List (String × Query)) →
    Ensures (fun cs => ∀ c ∈ cs, K.value c.expr) (projection caps columns)
  | [] => by
    rw [projection]
    exact ensures_pure (List.forall_mem_nil _)
  | (name, q) :: rest => by
    rw [projection]
    refine (ensures_expression q).bind fun e he => ?_
    refine (ensures_projection rest).bind fun cs hcs => ensures_pure ?_
    exact List.forall_mem_cons.mpr ⟨K.asValue he, hcs⟩

/-- The draft of a sequence satisfies the invariant. -/
theorem ensures_sequence : (q : Query) → Ensures K.Keeps (sequence caps q)
  | .source .. => by
    rw [sequence]
    exact ensures_pure (keeps_reading ..)
  | .filter rows predicate => by
    rw [sequence]
    refine (ensures_sequence rows).bind fun d hd => ?_
    refine (ensures_pushDownIf hd).bind fun d hd => ?_
    refine ((ensures_expression predicate).inRow d.row).bind fun e he => ensures_pure ?_
    exact hd.filtered (K.asPredicate he)
  | .orderBy rows key _ => by
    rw [sequence]
    refine (ensures_sequence rows).bind fun d hd => ?_
    refine (ensures_pushDownIf hd).bind fun d hd => ?_
    refine ((ensures_expression key).inRow d.row).bind fun e he => ensures_pure ?_
    exact hd.ordered (K.asValue he)
  | .project rows columns => by
    rw [sequence]
    refine (ensures_sequence rows).bind fun d hd => ?_
    refine (ensures_pushDownIf hd).bind fun d hd => ?_
    refine ((ensures_projection columns).inRow d.row).bind fun cs hcs => ensures_pure ?_
    exact hd.projecting hcs
  | .skip rows _ => by
    rw [sequence]
    refine (ensures_sequence rows).bind fun d hd => ?_
    refine (ensures_pushDownIf hd).bind fun d hd => ?_
    refine (ensures_lift fun e => K.value_of_rowCount).bind fun e he => ensures_pure ?_
    exact ⟨hd.select, by simpa using he, hd.take⟩
  | .take rows _ => by
    rw [sequence]
    refine (ensures_sequence rows).bind fun d hd => ?_
    refine (ensures_pushDownIf hd).bind fun d hd => ?_
    refine (ensures_lift fun e => K.value_of_rowCount).bind fun e he => ensures_pure ?_
    exact ⟨hd.select, hd.skip, by simpa using he⟩
  | .any .. | .member .. | .call .. | .constant _ | .parameter _ | .binary .. | .unary .. => by
    rw [sequence]
    exact ensures_throw _

theorem ensures_meeting {d : Draft} (hd : K.Keeps d) :
    (predicate? : Option Query) → Ensures K.Keeps (meeting caps d predicate?)
  | none => by
    rw [meeting]
    exact ensures_pure hd
  | some predicate => by
    rw [meeting]
    refine (ensures_pushDownIf hd).bind fun d hd => ?_
    refine ((ensures_expression predicate).inRow d.row).bind fun e he => ensures_pure ?_
    exact hd.filtered (K.asPredicate he)

end

/-- The statement of a query satisfies the invariant. -/
theorem of_ofQuery {q : Query} {s : Select} (h : Select.ofQuery caps q = .ok s) :
    K.select s := by
  cases hq : q.isSequence with
  | true =>
    obtain ⟨d, m, hd, hfinish⟩ := sequence_of_ofQuery hq h
    exact K.consists ((K.ensures_sequence q _ _ _ hd).finish hfinish)
  | false =>
    obtain ⟨rows, predicate?, e, m, rfl, he, rfl⟩ := any_of_ofQuery hq h
    obtain ⟨inner, rfl⟩ := existsRow_of_gives_any he
    have htest := K.ensures_expression _ _ _ _ he
    refine K.consists ⟨List.forall_mem_singleton.mpr (K.outcome _ _ htest), ?_,
      List.forall_mem_nil _, List.forall_mem_nil _, ?_⟩
    · rintro rows source ⟨⟩
    · rintro w ⟨⟩

end Invariant

end QueryLoom.Sql
