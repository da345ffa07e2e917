/-
  QueryLoom/Proofs/Drafting/Readiness.lean
  ========================================
  **Drafts that can always be finished and pushed down.**  A draft reads from rows with an alias
  and has counts that were checked when they were taken over, so it can be finished.  Pushing it
  down can only fail where a key of its ordering is lost.  A key without a test in it is kept as
  long as the draft selects all columns, and a draft with columns of its own has no ordering where
  no projection is applied to ordered rows.

    * `Draft.Ready` — what is known of a draft of a sequence that spares orderings;
    * `ready_of_drafts` — every rule of drafting keeps it;
    * `succeeds_pushDown` — pushing such a draft down succeeds.
-/
import QueryLoom.Proofs.Query.Site
import QueryLoom.Proofs.Scoping.Capture
import QueryLoom.Proofs.Truth.Coercion

namespace QueryLoom.Sql

/-! ### Success -/

/-- The step succeeds when it starts with the names. -/
def Succeeds {α : Type} (x : Drafting α) (n : Naming) : Prop := ∃ a m, Gives x n a m

section Combinators

variable {α β : Type} {n m : Naming}

theorem succeeds_pure (a : α) : Succeeds (pure a) n := ⟨a, n, gives_pure.mpr ⟨rfl, rfl⟩⟩

theorem not_succeeds_throw {e : CompileError} : ¬ Succeeds (throw e : Drafting α) n := by
  rintro ⟨a, m, h⟩
  exact not_gives_throw h

theorem succeeds_bind {x : Drafting α} {f : α → Drafting β} :
    Succeeds (x >>= f) n ↔ ∃ a m, Gives x n a m ∧ Succeeds (f a) m := by
  constructor
  · rintro ⟨b, k, h⟩
    obtain ⟨a, m, ha, hb⟩ := gives_bind.mp h
    exact ⟨a, m, ha, b, k, hb⟩
  · rintro ⟨a, m, ha, b, k, hb⟩
    exact ⟨b, k, gives_bind.mpr ⟨a, m, ha, hb⟩⟩

/-- Where the second step succeeds or not whatever the first one gives, both succeed together. -/
theorem succeeds_bind_iff {x : Drafting α} {f : α → Drafting β} {P : Prop}
    (hf : ∀ a m, Gives x n a m → (Succeeds (f a) m ↔ P)) :
    Succeeds (x >>= f) n ↔ Succeeds x n ∧ P := by
  rw [succeeds_bind]
  constructor
  · rintro ⟨a, m, ha, hb⟩
    exact ⟨⟨a, m, ha⟩, (hf a m ha).mp hb⟩
  · rintro ⟨⟨a, m, ha⟩, hP⟩
    exact ⟨a, m, ha, (hf a m ha).mpr hP⟩

theorem succeeds_bind_pure {x : Drafting α} {f : α → β} :
    Succeeds (x >>= fun a => pure (f a)) n ↔ Succeeds x n := by
  rw [succeeds_bind_iff fun a m _ => iff_true_intro (succeeds_pure (f a)), and_true]

theorem succeeds_lift {x : Except CompileError α} :
    Succeeds (liftM x) n ↔ ∃ a, x = .ok a := by
  constructor
  · rintro ⟨a, m, h⟩
    exact ⟨a, (gives_lift.mp h).1⟩
  · rintro ⟨a, h⟩
    exact ⟨a, n, gives_lift.mpr ⟨h, rfl⟩⟩

theorem succeeds_lift_bind {x : Except CompileError α} {f : α → Drafting β} :
    Succeeds (liftM x >>= f) n ↔ ∃ a, x = .ok a ∧ Succeeds (f a) n := by
  simp only [succeeds_bind, gives_lift, and_assoc, exists_and_left, exists_eq_left]

theorem succeeds_modify_bind {f : Naming → Naming} {g : PUnit → Drafting β} :
    Succeeds (modify f >>= g) n ↔ Succeeds (g ⟨⟩) (f n) := by
  rw [succeeds_bind]
  constructor
  · rintro ⟨⟨⟩, _, hf, hg⟩
    rwa [gives_modify.mp hf] at hg
  · exact fun hg => ⟨⟨⟩, f n, gives_modify.mpr rfl, hg⟩

theorem succeeds_inRow {x : Drafting α} {row : Scope} :
    Succeeds (inRow row x) n ↔ Succeeds x { n with scopes := row :: n.scopes } := by
  constructor
  · rintro ⟨a, m, h⟩
    obtain ⟨k, hk, _⟩ := gives_inRow.mp h
    exact ⟨a, k, hk⟩
  · rintro ⟨a, k, h⟩
    exact ⟨a, _, gives_inRow.mpr ⟨k, h, rfl⟩⟩

end Combinators

/-! ### Counts -/

theorem checkCount_eq_ok {operator : String} {e : Expr} :
    Paging.checkCount operator e = .ok () ↔
      (∃ v, e = .literal v ∧ v.isNatural = true) ∨
        ∃ p, e = .parameter p ∧ p.type.isInteger = true := by
  cases e with
  | literal v =>
    simp only [Paging.checkCount, Value.isNatural]
    cases hinteger : v.integer? with
    | none => simp [hinteger]
    | some n => simp [hinteger]
  | parameter p =>
    rw [Paging.checkCount]
    split
    · next hp => simp [hp]
    · next hp => simp [hp]
  | _ => simp [Paging.checkCount]

theorem checked_eq_ok {operator : String} {e e' : Expr} :
    (do Paging.checkCount operator e; return e) = (.ok e' : Except CompileError Expr) ↔
      Paging.checkCount operator e = .ok () ∧ e = e' := by
  cases Paging.checkCount operator e with
  | error err => simp [bind, Except.bind]
  | ok u => simp [bind, Except.bind, pure, Except.pure]

/-- A count is the constant or the parameter that the node is, if it was checked. -/
theorem rowCount_eq_ok {operator : String} {count : Query} {e : Expr} :
    Paging.rowCount operator count = .ok e ↔ Paging.checkCount operator e = .ok () ∧
      ((∃ v, count = .constant v ∧ e = .literal v) ∨
        ∃ p, count = .parameter p ∧ e = .parameter p) := by
  cases count with
  | constant v =>
    refine checked_eq_ok.trans ?_
    grind
  | parameter p =>
    refine checked_eq_ok.trans ?_
    grind
  | _ => simp [Paging.rowCount, bind, Except.bind]

/-- What can count rows is taken over as a count. -/
theorem exists_rowCount_iff {operator : String} {count : Query} :
    (∃ e, Paging.rowCount operator count = .ok e) ↔ count.isCount = true := by
  simp only [rowCount_eq_ok, checkCount_eq_ok]
  cases count <;> simp [Query.isCount]

/-- Counts that were checked make a window. -/
theorem exists_window? {p : Paging}
    (hskip : ∀ e, p.skip? = some e → Paging.checkCount PagingOperator.skip.name e = .ok ())
    (htake : ∀ e, p.take? = some e → Paging.checkCount PagingOperator.take.name e = .ok ()) :
    ∃ w?, p.window? = .ok w? := by
  rcases p with ⟨_ | skip, _ | take⟩
  · exact ⟨none, rfl⟩
  · have hcheck := htake take rfl
    exact ⟨_, by simp only [Paging.window?, hcheck, bind, Except.bind]; rfl⟩
  · have hcheck := hskip skip rfl
    exact ⟨_, by simp only [Paging.window?, hcheck, bind, Except.bind]; rfl⟩
  · have hcheck := hskip skip rfl
    have hcheck' := htake take rfl
    exact ⟨_, by simp only [Paging.window?, hcheck, hcheck', bind, Except.bind]; rfl⟩

/-! ### Keys -/

/-- An expression holds a statement just when one of its parts is a test. -/
theorem exists_of_hasSubquery (e : Expr) :
    e.hasSubquery = true → ∃ rows, .existsRow rows ∈ e.parts := by
  intro h
  induction e using Expr.induction_on_operands with
  | existsRow rows => exact ⟨rows, Expr.self_mem_parts _⟩
  | operator e op hop ih =>
    have hexists : e.isExists = false := by cases e <;> first | rfl | cases hop
    rw [hasSubquery_eq, hexists, Bool.false_or, List.any_eq_true] at h
    obtain ⟨o, ho, h⟩ := h
    obtain ⟨rows, hrows⟩ := ih o ho h
    exact ⟨rows, mem_parts_of_mem_operands ho hrows⟩
  | _ => cases h

theorem hasSubquery_asValue (caps : Capabilities) (e : Expr) :
    (asValue caps e).hasSubquery = e.hasSubquery := hasSubquery_placed caps false e

/-- A scalar without a test in it is taken over without a statement in it. -/
theorem hasSubquery_of_gives {caps : Capabilities} {n m : Naming} {q : Query} {e : Expr}
    (h : Gives (expression caps q) n e m) (hq : ∀ x ∈ q.nodes, x.isAny = false) :
    e.hasSubquery = false := by
  rw [← Bool.not_eq_true]
  intro hsubquery
  obtain ⟨rows, hrows⟩ := exists_of_hasSubquery e hsubquery
  obtain ⟨t, ht, -⟩ := tested_of_gives h hrows
  rw [Query.tests_eq_nil q hq] at ht
  cases ht

/-- A statement that selects all columns carries every key that holds no statement. -/
theorem carry_eq_rename {s : Select} {old : String}
    (hcolumns : s.columns = [⟨.allColumns old, none⟩]) (halias : s.origin.alias? = some old)
    {key : Expr} (hkey : key.hasSubquery = false) (source : String) :
    s.carry source key = some (key.rename old source) := by
  have hnone : s.columnOf? key = none := by
    rw [Select.columnOf?, hcolumns, List.find?_singleton]
    split <;> rfl
  have hall : s.selectsAllColumns = true := by
    rw [Select.selectsAllColumns, hcolumns, halias]
    exact beq_self_eq_true old
  rw [Select.carry, hnone]
  simp [hall, halias, Expr.rebase, hkey]

theorem exists_carryOrdering {s : Select} {source : String}
    (h : ∀ k ∈ s.ordering, ∃ e, s.carry source k.expr = some e) :
    ∃ ordering, s.carryOrdering source = .ok ordering := by
  rw [Select.carryOrdering]
  generalize s.ordering = keys at h ⊢
  induction keys with
  | nil => exact ⟨[], rfl⟩
  | cons k rest ih =>
    obtain ⟨hk, hrest⟩ := List.forall_mem_cons.mp h
    obtain ⟨e, he⟩ := hk
    obtain ⟨ordering, hordering⟩ := ih hrest
    refine ⟨⟨e, k.direction⟩ :: ordering, ?_⟩
    simp only [List.mapM_cons, he, hordering, bind, Except.bind, pure, Except.pure]

theorem hasSubquery_rename (old new : String) (e : Expr) :
    (e.rename old new).hasSubquery = e.hasSubquery := by
  have hexists : ∀ e : Expr, (e.rename old new).isExists = e.isExists := by
    intro e
    cases e <;> rfl
  exact hasSubquery_of_map hexists (operands_rename old new) e

/-! ### Drafts -/

/-- What is known of the draft of a sequence that spares orderings. -/
structure Draft.Ready (q : Query) (d : Draft) : Prop where
  row : d.row.logical = q.rowAlias
  origin : ∃ source, d.select.origin.alias? = some source
  window : ∃ w?, d.paging.window? = .ok w?
  columns : d.projected = false → d.select.columns = []
  unordered : q.sortKeys = [] → d.select.ordering = []
  keys : d.select.ordering = [] ∨
    d.select.columns = [] ∧ ∀ k ∈ d.select.ordering, k.expr.hasSubquery = false

namespace Draft.Ready

variable {caps : Capabilities} {q : Query} {d : Draft} {n : Naming} (h : d.Ready q)

include h

theorem exists_finish : ∃ s, d.finish = .ok s := by
  obtain ⟨source, hsource⟩ := h.origin
  obtain ⟨w?, hw⟩ := h.window
  exact ⟨_, (Draft.finish_eq_ok hsource).mpr ⟨w?, hw, rfl⟩⟩

theorem exists_existence : ∃ s, d.existence = .ok s := by
  obtain ⟨source, hsource⟩ := h.origin
  obtain ⟨w?, hw⟩ := h.window
  exact ⟨_, (Draft.existence_eq_ok hsource).mpr ⟨w?, hw, rfl⟩⟩

/-- Pushing the draft down succeeds. -/
theorem succeeds_pushDown : Succeeds (pushDown d) n := by
  obtain ⟨source, hsource⟩ := h.origin
  obtain ⟨w?, hw⟩ := h.window
  have hfinish := (Draft.finish_eq_ok hsource).mpr ⟨w?, hw, rfl⟩
  obtain ⟨ordering, hordering⟩ : ∃ ordering, Select.carryOrdering
      { d.select with columns := d.finalColumns source, window? := w? }
      (Text.numbered "t" n.next) = .ok ordering := by
    refine exists_carryOrdering fun k hk => ?_
    rcases h.keys with hnone | ⟨hcolumns, hkeys⟩
    · rw [hnone] at hk
      cases hk
    · have hall : d.finalColumns source = [⟨.allColumns source, none⟩] := by
        rw [Draft.finalColumns, hcolumns]
        rfl
      have hcarry := @carry_eq_rename
        { d.select with columns := d.finalColumns source, window? := w? } source hall hsource
      exact ⟨_, hcarry (hkeys k hk) _⟩
  exact ⟨_, _, gives_pushDown.mpr ⟨_, ordering, hfinish, hordering, rfl, rfl⟩⟩

/-- A draft that was pushed down is ready again. -/
theorem pushed {d' : Draft} {m : Naming} (hpush : Gives (pushDown d) n d' m) : d'.Ready q := by
  obtain ⟨source, hsource⟩ := h.origin
  obtain ⟨inner, ordering, hfinish, hordering, -, rfl⟩ := gives_pushDown.mp hpush
  obtain ⟨w?, hw, rfl⟩ := (Draft.finish_eq_ok hsource).mp hfinish
  have hcarried := carryOrdering_eq_ok hordering
  refine ⟨h.row, ⟨_, rfl⟩, ⟨none, rfl⟩, fun _ => rfl, ?_, .inr ⟨rfl, ?_⟩⟩
  · intro hq
    rw [h.unordered hq] at hcarried
    exact List.forall₂_nil_left_iff.mp hcarried
  · intro k' hk'
    obtain ⟨k, hk, hcarry⟩ := exists_carry_of_carryOrdering hordering hk'
    rcases h.keys with hnone | ⟨-, hkeys⟩
    · rw [show d.select.ordering = [] from hnone] at hk
      cases hk
    · rcases carry_eq_some hcarry with ⟨c, -, name, -, -, hkey⟩ | ⟨old, -, -, -, hkey⟩
      · rw [hkey]
        rfl
      · rw [hkey, hasSubquery_rename]
        exact hkeys k hk

end Draft.Ready

/-- A draft of a sequence that spares orderings is ready. -/
theorem ready_of_drafts {caps : Capabilities} {q : Query} {n m : Naming} {d : Draft}
    (hd : Drafts caps q n d m) (hq : ∀ x ∈ q.nodes, x.sparesOrderings = true) : d.Ready q := by
  induction hd with
  | source => exact ⟨rfl, ⟨_, rfl⟩, ⟨none, rfl⟩, fun _ => rfl, fun _ => rfl, .inl rfl⟩
  | pushed _ hpush ih => exact (ih hq).pushed hpush
  | filter hd hpaged hproj he ih =>
    rw [Query.nodes, List.forall_mem_cons, List.forall_mem_append] at hq
    have h := ih hq.2.1
    exact ⟨h.row, h.origin, h.window, h.columns, h.unordered, h.keys⟩
  | project hd hproj hcs ih =>
    rw [Query.nodes, List.forall_mem_cons, List.forall_mem_append] at hq
    have h := ih hq.2.1
    have hunordered := h.unordered (List.isEmpty_iff.mp hq.1)
    exact ⟨h.row, h.origin, h.window, nofun, fun _ => hunordered, .inl hunordered⟩
  | skip hd hpaged he ih =>
    rw [Query.nodes, List.forall_mem_cons, List.forall_mem_append] at hq
    have h := ih hq.2.1
    obtain ⟨w?, hw⟩ := h.window
    obtain ⟨hskip, htake, -⟩ := window?_eq_ok hw
    refine ⟨h.row, h.origin, exists_window? ?_ htake, h.columns, h.unordered, h.keys⟩
    rintro _ ⟨⟩
    exact (rowCount_eq_ok.mp he).1
  | take hd htake he ih =>
    rw [Query.nodes, List.forall_mem_cons, List.forall_mem_append] at hq
    have h := ih hq.2.1
    obtain ⟨w?, hw⟩ := h.window
    obtain ⟨hskip, -, -⟩ := window?_eq_ok hw
    refine ⟨h.row, h.origin, exists_window? hskip ?_, h.columns, h.unordered, h.keys⟩
    rintro _ ⟨⟩
    exact (rowCount_eq_ok.mp he).1
  | @orderBy rows key direction n m k d e hd hpaged hproj he ih =>
    rw [Query.nodes, List.forall_mem_cons, List.forall_mem_append] at hq
    have h := ih hq.2.1
    have hcolumns := h.columns hproj
    have hkey : ∀ x ∈ key.nodes, x.isAny = false := by
      simpa [Query.sparesOrderings] using hq.1
    obtain ⟨k, he, -⟩ := gives_inRow.mp he
    refine ⟨h.row, h.origin, h.window, h.columns, ?_, .inr ⟨hcolumns, ?_⟩⟩
    · intro hnone
      simp [Query.sortKeys] at hnone
    · intro x hx
      rcases List.mem_append.mp hx with hx | hx
      · rcases h.keys with hnone | ⟨-, hkeys⟩
        · rw [hnone] at hx
          cases hx
        · exact hkeys x hx
      · rw [List.mem_singleton.mp hx]
        exact (hasSubquery_asValue caps e).trans (hasSubquery_of_gives he hkey)

/-- A draft of a sequence that spares orderings can be pushed down where need be. -/
theorem succeeds_pushDownIf {caps : Capabilities} {q : Query} {n m : Naming} {d : Draft}
    (hd : Drafts caps q n d m) (hq : ∀ x ∈ q.nodes, x.sparesOrderings = true) (needed : Bool) :
    Succeeds (pushDownIf needed d) m := by
  cases needed with
  | false => exact ⟨d, m, gives_pushDownIf.mpr ⟨rfl, rfl⟩⟩
  | true => exact (ready_of_drafts hd hq).succeeds_pushDown

end QueryLoom.Sql
