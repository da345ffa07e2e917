/-
  QueryLoom/Proofs/Drafting/Naming.lean
  =====================================
  **What drafting does to the names.**  After any step, whether it succeeds or fails, the same
  rows are in scope as before and the same aliases belong to tables; the number of derived
  tables has only grown.  Only `inRow` touches the rows in scope, and it puts them back whatever
  the step inside did, and the number changes only where an alias is drawn.

  A `Growth` is a relation of the names before and after a step that has these laws.  It counts
  the aliases that may be drawn, of which a step on a query needs at most one for each node.  So the
  recursion on the query is gone through once, in `grows_expression` and `grows_sequence`.

  A new alias is not the alias of a table, and its number is not below the one that the names
  had.
-/
import QueryLoom.Proofs.Drafting.Outcome
import QueryLoom.Proofs.Query.Site
import QueryLoom.Proofs.Text.FreeName

namespace QueryLoom.Sql

/-! ### Growth -/

/-- A relation of the names before and after a step, which may draw as many aliases. -/
structure Growth where
  rel : Nat → Naming → Naming → Prop
  refl (n : Naming) : rel 0 n n
  trans {j k : Nat} {l m n : Naming} : rel j l m → rel k m n → rel (j + k) l n
  mono {j k : Nat} {m n : Naming} : j ≤ k → rel j m n → rel k m n
  inRow {k : Nat} {n m : Naming} (row : Scope) :
    rel k { n with scopes := row :: n.scopes } m → rel k n { m with scopes := n.scopes }
  fresh (n : Naming) : rel 1 n { n with derived := n.next + 1 }

/-- The names before and after the step are related, for as many aliases. -/
def Grows (G : Growth) {α : Type} (x : Drafting α) (k : Nat) : Prop :=
  ∀ n : Naming, G.rel k n (x.run.run n).2

section Growth

variable {G : Growth} {α β : Type} {j k : Nat}

theorem Grows.mono {x : Drafting α} (hx : Grows G x j) (h : j ≤ k) : Grows G x k :=
  fun n => G.mono h (hx n)

theorem grows_pure (a : α) : Grows G (pure a) 0 := fun n => G.refl n

theorem grows_throw (e : CompileError) : Grows G (throw e : Drafting α) 0 := fun n => G.refl n

theorem grows_lift (x : Except CompileError α) : Grows G (liftM x) 0 := fun n => G.refl n

theorem grows_freshAlias : Grows G freshAlias 1 := fun n => G.fresh n

theorem Grows.inRow {x : Drafting α} (hx : Grows G x k) (row : Scope) : Grows G (inRow row x) k :=
  fun n => G.inRow row (hx { n with scopes := row :: n.scopes })

theorem Grows.bind {x : Drafting α} {f : α → Drafting β} (hx : Grows G x j)
    (hf : ∀ a, Grows G (f a) k) : Grows G (x >>= f) (j + k) := by
  intro n
  have hn := hx n
  simp only [ExceptT.run_bind, StateT.run_bind]
  rcases hrun : x.run.run n with ⟨r, m⟩
  rw [hrun] at hn
  cases r with
  | ok a => exact G.trans hn (hf a m)
  | error e => exact G.mono (Nat.le_add_right j k) hn

/-! ### The steps -/

theorem grows_resolve (alias? : Option String) (name : String) :
    Grows G (resolve alias? name) 0 := by
  refine Grows.bind (j := 0) (k := 0) (fun n => G.refl n) fun n => ?_
  cases alias? with
  | none =>
    simp only
    cases n.scopes.head? with
    | none => exact grows_throw _
    | some row => exact grows_pure _
  | some source =>
    simp only
    cases n.scopes.find? fun row => row.logical == source with
    | none => exact grows_throw _
    | some row => exact grows_pure _

theorem grows_pushDown (d : Draft) : Grows G (pushDown d) 1 := by
  have hcarried := fun inner : Select => (grows_freshAlias (G := G)).bind fun source =>
    (grows_lift (inner.carryOrdering source)).bind fun ordering => grows_pure
      ({ select := { Select.reading (.derived
            (if inner.isPaged then inner else { inner with ordering := [] }) source) with ordering }
         row := ⟨d.row.logical, source⟩ } : Draft)
  exact ((grows_lift d.finish).bind hcarried).mono (by omega)

theorem grows_pushDownIf (needed : Bool) (d : Draft) : Grows G (pushDownIf needed d) 1 := by
  cases needed with
  | false => exact (grows_pure d).mono (Nat.zero_le 1)
  | true => exact grows_pushDown d

mutual

/-- A step on a scalar draws at most one alias for a node. -/
theorem grows_expression (caps : Capabilities) :
    (q : Query) → Grows G (expression caps q) q.nodes.length
  | .constant _ | .parameter _ => by
    rw [expression]
    exact (grows_pure _).mono (Nat.zero_le _)
  | .member receiver? (.column alias? name) => by
    rw [expression]
    split
    · exact (grows_throw _).mono (Nat.zero_le _)
    · exact (grows_resolve alias? name).mono (Nat.zero_le _)
  | .member receiver? (.property p) => by
    rw [expression, Query.nodes, List.length_cons]
    have hreceiver := grows_optionValue caps receiver?
    exact (hreceiver.bind fun _ => (grows_lift _).bind fun _ => grows_lift _).mono (by omega)
  | .call receiver? m args => by
    rw [expression, Query.nodes, List.length_cons, List.length_append]
    have hreceiver := grows_optionValue caps receiver?
    have hargs := grows_values caps args
    exact ((grows_lift _).bind fun _ => hreceiver.bind fun _ => hargs.bind fun _ =>
      grows_lift _).mono (by omega)
  | .binary left op right => by
    rw [expression, Query.nodes, List.length_cons, List.length_append]
    have hleft := grows_expression caps left
    have hright := grows_expression caps right
    split
    · exact (hright.bind fun _ => grows_pure _).mono (by omega)
    · split
      · exact (hleft.bind fun _ => grows_pure _).mono (by omega)
      · exact (hleft.bind fun _ => hright.bind fun _ => grows_pure _).mono (by omega)
  | .unary .not operand | .unary .negate operand => by
    rw [expression, Query.nodes, List.length_cons]
    have hoperand := grows_expression caps operand
    exact (hoperand.bind fun _ => grows_pure _).mono (by omega)
  | .any rows predicate? => by
    rw [expression, Query.nodes, List.length_cons, List.length_append]
    have hrows := grows_sequence caps rows
    have hmeeting := fun d => grows_meeting caps d predicate?
    exact (hrows.bind fun d => (hmeeting d).bind fun _ => (grows_lift _).bind fun _ =>
      grows_pure _).mono (by omega)
  | .source .. | .filter .. | .project .. | .skip .. | .take .. | .orderBy .. => by
    rw [expression]
    exact (grows_throw _).mono (Nat.zero_le _)

theorem grows_optionValue (caps : Capabilities) :
    (q? : Option Query) → Grows G (optionValue caps q?) (Query.optionNodes q?).length
  | none => by
    rw [optionValue]
    exact grows_pure _
  | some q => by
    rw [optionValue, Query.optionNodes]
    exact (grows_expression caps q).bind fun _ => grows_pure _

theorem grows_values (caps : Capabilities) :
    (qs : List Query) → Grows G (values caps qs) (Query.listNodes qs).length
  | [] => by
    rw [values]
    exact grows_pure _
  | q :: rest => by
    rw [values, Query.listNodes, List.length_append]
    have hq := grows_expression caps q
    have hrest := grows_values caps rest
    exact hq.bind fun _ => hrest.bind fun _ => grows_pure _

theorem grows_projection (caps : Capabilities) :
    (columns : List (String × Query)) →
      Grows G (projection caps columns) (Query.columnNodes columns).length
  | [] => by
    rw [projection]
    exact grows_pure _
  | (name, q) :: rest => by
    rw [projection, Query.columnNodes, List.length_append]
    have hq := grows_expression caps q
    have hrest := grows_projection caps rest
    exact hq.bind fun _ => hrest.bind fun _ => grows_pure _

/-- A step on a sequence draws at most one alias for a node. -/
theorem grows_sequence (caps : Capabilities) :
    (q : Query) → Grows G (sequence caps q) q.nodes.length
  | .source .. => by
    rw [sequence]
    exact (grows_pure _).mono (Nat.zero_le _)
  | .filter rows predicate | .orderBy rows predicate _ => by
    rw [sequence, Query.nodes, List.length_cons, List.length_append]
    have hrows := grows_sequence caps rows
    have hscalar := grows_expression caps predicate
    exact (hrows.bind fun d => (grows_pushDownIf _ d).bind fun d => (hscalar.inRow d.row).bind
      fun _ => grows_pure _).mono (by omega)
  | .project rows columns => by
    rw [sequence, Query.nodes, List.length_cons, List.length_append]
    have hrows := grows_sequence caps rows
    have hcolumns := grows_projection caps columns
    exact (hrows.bind fun d => (grows_pushDownIf _ d).bind fun d => (hcolumns.inRow d.row).bind
      fun _ => grows_pure _).mono (by omega)
  | .skip rows count | .take rows count => by
    rw [sequence, Query.nodes, List.length_cons, List.length_append]
    have hrows := grows_sequence caps rows
    exact (hrows.bind fun d => (grows_pushDownIf _ d).bind fun _ => (grows_lift _).bind fun _ =>
      grows_pure _).mono (by omega)
  | .any .. | .member .. | .call .. | .constant _ | .parameter _ | .binary .. | .unary .. => by
    rw [sequence]
    exact (grows_throw _).mono (Nat.zero_le _)

theorem grows_meeting (caps : Capabilities) (d : Draft) :
    (predicate? : Option Query) →
      Grows G (meeting caps d predicate?) (1 + (Query.optionNodes predicate?).length)
  | none => by
    rw [meeting]
    exact (grows_pure d).mono (Nat.zero_le _)
  | some predicate => by
    rw [meeting, Query.optionNodes]
    have hpredicate := grows_expression caps predicate
    exact (grows_pushDownIf _ d).bind fun d => (hpredicate.inRow d.row).bind fun _ => grows_pure _

end

end Growth

/-! ### New aliases -/

theorem Naming.le_next (n : Naming) : n.derived ≤ n.next :=
  (Text.freeNumber_spec "t" n.sourceAliases 0 n.derived).1

theorem Naming.numbered_next_not_mem (n : Naming) :
    Text.numbered "t" n.next ∉ n.sourceAliases :=
  (Text.freeNumber_spec "t" n.sourceAliases 0 n.derived).2.1

/-! ### Following names -/

/-- What is known after a step, compared with before it. -/
structure Naming.Follows (m n : Naming) : Prop where
  scopes : m.scopes = n.scopes
  sourceAliases : m.sourceAliases = n.sourceAliases
  derived : n.derived ≤ m.derived

theorem Naming.Follows.refl (n : Naming) : n.Follows n := ⟨rfl, rfl, Nat.le_refl _⟩

theorem Naming.Follows.trans {k m n : Naming} (hkm : k.Follows m) (hmn : m.Follows n) :
    k.Follows n :=
  ⟨hkm.scopes.trans hmn.scopes, hkm.sourceAliases.trans hmn.sourceAliases,
    Nat.le_trans hmn.derived hkm.derived⟩

/-- Names follow those before them, however many aliases are drawn. -/
def Growth.following : Growth where
  rel _ n m := m.Follows n
  refl n := .refl n
  trans h h' := h'.trans h
  mono _ h := h
  inRow _ h := ⟨rfl, h.sourceAliases, h.derived⟩
  fresh n := ⟨rfl, rfl, Nat.le_succ_of_le n.le_next⟩

/-- The names after the step follow those before it. -/
def KeepsNames {α : Type} (x : Drafting α) : Prop :=
  ∀ n : Naming, (x.run.run n).2.Follows n

section Following

variable {α β : Type}

theorem keepsNames_pure (a : α) : KeepsNames (pure a) := fun n => .refl n

theorem keepsNames_throw (e : CompileError) : KeepsNames (throw e : Drafting α) := fun n => .refl n

theorem keepsNames_lift (x : Except CompileError α) : KeepsNames (liftM x) := fun n => .refl n

theorem KeepsNames.inRow {x : Drafting α} (hx : KeepsNames x) (row : Scope) :
    KeepsNames (inRow row x) :=
  Grows.inRow (G := .following) (k := 0) hx row

theorem KeepsNames.bind {x : Drafting α} {f : α → Drafting β} (hx : KeepsNames x)
    (hf : ∀ a, KeepsNames (f a)) : KeepsNames (x >>= f) :=
  Grows.bind (G := .following) (j := 0) (k := 0) hx hf

theorem KeepsNames.of_gives {x : Drafting α} (hx : KeepsNames x) {n m : Naming} {a : α}
    (h : Gives x n a m) : m.Follows n := by
  have hn := hx n
  rwa [show x.run.run n = (.ok a, m) from h] at hn

end Following

variable (caps : Capabilities)

theorem keepsNames_pushDown (d : Draft) : KeepsNames (pushDown d) :=
  grows_pushDown (G := .following) d

theorem keepsNames_pushDownIf (needed : Bool) (d : Draft) : KeepsNames (pushDownIf needed d) :=
  grows_pushDownIf (G := .following) needed d

theorem keepsNames_expression (q : Query) : KeepsNames (expression caps q) :=
  grows_expression (G := .following) caps q

theorem keepsNames_optionValue (q? : Option Query) : KeepsNames (optionValue caps q?) :=
  grows_optionValue (G := .following) caps q?

theorem keepsNames_values (qs : List Query) : KeepsNames (values caps qs) :=
  grows_values (G := .following) caps qs

theorem keepsNames_projection (columns : List (String × Query)) :
    KeepsNames (projection caps columns) :=
  grows_projection (G := .following) caps columns

theorem keepsNames_sequence (q : Query) : KeepsNames (sequence caps q) :=
  grows_sequence (G := .following) caps q

theorem keepsNames_meeting (d : Draft) (predicate? : Option Query) :
    KeepsNames (meeting caps d predicate?) :=
  grows_meeting (G := .following) caps d predicate?

/-- The names after a draft follow those before it. -/
theorem Drafts.follows {caps : Capabilities} {q : Query} {n m : Naming} {d : Draft}
    (h : Drafts caps q n d m) : m.Follows n := by
  induction h with
  | source => exact .refl _
  | pushed _ hpush ih => exact ((keepsNames_pushDown _).of_gives hpush).trans ih
  | filter _ _ _ he ih | orderBy _ _ _ he ih =>
    exact (((keepsNames_expression _ _).inRow _).of_gives he).trans ih
  | project _ _ hcs ih =>
    exact (((keepsNames_projection _ _).inRow _).of_gives hcs).trans ih
  | skip _ _ _ ih | take _ _ _ ih => exact ih

end QueryLoom.Sql
