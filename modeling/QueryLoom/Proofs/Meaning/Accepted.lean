/-
  QueryLoom/Proofs/Meaning/Accepted.lean
  ======================================
  **Statements that a server accepts.**  A derived table must not have two columns of one name.
  Nothing else is asked of a statement here, and it is asked of every derived table in it, also of
  those in tests.

  Whatever is taken over from a query stands somewhere in the statement, so the tests in the
  parts of an accepted expression are accepted.

    * `Mapping.accepted_of_apply` — an operation is accepted only if its operands are;
    * `Expr.Accepted.of_agrees` — of two expressions that agree both are accepted or none.
-/
import QueryLoom.Proofs.Meaning.Operands

namespace QueryLoom.Sql

/-- No derived table in the statement has two columns of one name. -/
inductive Select.Accepted : Select → Prop
  | intro {s : Select}
      (columns : ∀ c ∈ s.columns, ∀ rows, .existsRow rows ∈ c.expr.parts → Select.Accepted rows)
      (conditions : ∀ e ∈ s.conditions, ∀ rows, .existsRow rows ∈ e.parts → Select.Accepted rows)
      (ordering : ∀ k ∈ s.ordering, ∀ rows, .existsRow rows ∈ k.expr.parts → Select.Accepted rows)
      (origin : ∀ rows source, s.origin = .derived rows source → Select.Accepted rows)
      (distinct : ∀ rows source, s.origin = .derived rows source →
        (rows.columns.filterMap Column.alias?).Nodup) : Select.Accepted s

/-- No derived table in the tests of the expression has two columns of one name. -/
def Expr.Accepted (e : Expr) : Prop := ∀ rows, .existsRow rows ∈ e.parts → rows.Accepted

/-- A derived table has columns of different names, and so has every one inside of it. -/
def Origin.Accepted (o : Origin) : Prop :=
  ∀ rows source, o = .derived rows source →
    rows.Accepted ∧ (rows.columns.filterMap Column.alias?).Nodup

namespace Select.Accepted

variable {s : Select} (h : s.Accepted)

include h

theorem columns : ∀ c ∈ s.columns, c.expr.Accepted := by
  cases h with
  | intro columns => exact columns

theorem conditions : ∀ e ∈ s.conditions, e.Accepted := by
  cases h with
  | intro _ conditions => exact conditions

theorem ordering : ∀ k ∈ s.ordering, k.expr.Accepted := by
  cases h with
  | intro _ _ ordering => exact ordering

theorem origin : ∀ rows source, s.origin = .derived rows source → rows.Accepted := by
  cases h with
  | intro _ _ _ origin => exact origin

theorem distinct : ∀ rows source, s.origin = .derived rows source →
    (rows.columns.filterMap Column.alias?).Nodup := by
  cases h with
  | intro _ _ _ _ distinct => exact distinct

theorem origin_accepted : s.origin.Accepted :=
  fun rows source ho => ⟨h.origin rows source ho, h.distinct rows source ho⟩

end Select.Accepted

/-! ### Parts -/

namespace Expr

theorem accepted_iff {e : Expr} :
    e.Accepted ↔ (∀ o ∈ e.operands, o.Accepted) ∧ ∀ rows, e = .existsRow rows → rows.Accepted := by
  rw [Accepted, parts_eq]
  simp only [List.mem_cons, List.mem_flatMap]
  constructor
  · intro h
    exact ⟨fun o ho rows hrows => h rows (.inr ⟨o, ho, hrows⟩), fun rows he => h rows (.inl he.symm)⟩
  · rintro ⟨hoperands, htest⟩ rows (he | ⟨o, ho, hrows⟩)
    · exact htest rows he.symm
    · exact hoperands o ho rows hrows

theorem Accepted.operands {e : Expr} (h : e.Accepted) : ∀ o ∈ e.operands, o.Accepted :=
  (accepted_iff.mp h).1

theorem accepted_of_hasSubquery {e : Expr} (h : e.hasSubquery = false) : e.Accepted :=
  fun rows hrows => absurd hrows (not_exists_of_hasSubquery h rows)

end Expr

/-! ### Operations -/

/-- The parts of its operands are in what a template makes. -/
theorem Template.parts_subset_of_build? {t : Template} {es : List Expr} {e : Expr}
    (h : t.build? es = some e) : ∀ o ∈ es, o.parts ⊆ e.parts := by
  intro o ho x hx
  cases Template.build?_eq_some_iff.mp h with
  | function => exact List.mem_cons_of_mem _ (mem_partsList.mpr ⟨o, ho, hx⟩)
  | isNullOrEmpty trimmed text =>
    obtain rfl := List.mem_singleton.mp ho
    simp [Expr.parts, hx]
  | keyword | utcTimestamp => cases ho
  | _ =>
    simp only [List.mem_cons, List.not_mem_nil, or_false] at ho
    simp only [Expr.parts, partsOption, partsList, List.mem_cons, List.mem_append]
    grind

/-- An operand with a test is not changed by an adjustment, or stands in what it is changed to. -/
theorem Adjustment.exists_mem_parts {a : Adjustment} {caps : Capabilities} {es es' : List Expr}
    (h : a.operands caps es = .ok es') {rows : Select} {o : Expr} (ho : o ∈ es)
    (hrows : .existsRow rows ∈ o.parts) : ∃ o' ∈ es', .existsRow rows ∈ o'.parts := by
  rcases operands_eq_ok h with rfl | ⟨text, start, start', rest, rfl, rfl, hstart⟩
  · exact ⟨o, ho, hrows⟩
  · simp only [List.mem_cons] at ho
    rcases ho with rfl | rfl | ho
    · exact ⟨o, List.mem_cons_self, hrows⟩
    · refine ⟨start', by simp, ?_⟩
      unfold oneBased at hstart
      split at hstart
      · rw [Expr.parts, List.mem_singleton] at hrows
        cases hrows
      · cases hstart
        rw [Expr.parts]
        exact List.mem_cons_of_mem _ (List.mem_append_left _ hrows)
    · exact ⟨o, by simp [ho], hrows⟩

/-- A test in an operand is a test in the operation. -/
theorem Mapping.test_mem_of_apply {x : Mapping} {caps : Capabilities} {receiver? : Option Expr}
    {args : List Expr} {e : Expr} (h : x.apply caps receiver? args = .ok e) {rows : Select}
    {o : Expr} (ho : o ∈ receiver?.toList ++ args) (hrows : .existsRow rows ∈ o.parts) :
    .existsRow rows ∈ e.parts := by
  obtain ⟨operands, built, hoperands, hbuilt, rfl⟩ := Mapping.apply_eq_ok h
  have hresult : built.parts ⊆ (x.adjustment.result built).parts := by
    cases x.adjustment <;> simp [Adjustment.result, Expr.parts, partsList]
  obtain ⟨o', ho', hrows'⟩ := Adjustment.exists_mem_parts hoperands ho hrows
  exact hresult (Template.parts_subset_of_build? hbuilt o' ho' hrows')

/-- An operation is accepted only if its operands are. -/
theorem Mapping.accepted_of_apply {x : Mapping} {caps : Capabilities} {receiver? : Option Expr}
    {args : List Expr} {e : Expr} (h : x.apply caps receiver? args = .ok e) (he : e.Accepted) :
    ∀ o ∈ receiver?.toList ++ args, o.Accepted :=
  fun _ ho rows hrows => he rows (Mapping.test_mem_of_apply h ho hrows)

/-! ### Agreement -/

/-- What agrees with accepted expressions or statements is accepted. -/
theorem inherited_accepted :
    Inherited (fun e => ∀ e', e.agrees e' = true → e.Accepted → e'.Accepted)
      (fun s => ∀ s', s.agrees s' = true → s.Accepted → s'.Accepted) where
  expression e operands test e' h he := by
    rw [Expr.accepted_iff] at he ⊢
    cases Expr.agrees_iff.mp h with
    | column | allColumns | literal | parameter =>
      exact ⟨List.forall_mem_nil _, by rintro _ ⟨⟩⟩
    | existsRow hrows =>
      refine ⟨List.forall_mem_nil _, ?_⟩
      rintro _ ⟨⟩
      exact test _ rfl _ hrows (he.2 _ rfl)
    | operator _ hop' hagree =>
      refine ⟨fun o' ho' => ?_, ?_⟩
      · obtain ⟨o, ho, h⟩ := exists_of_forall₂_right hagree ho'
        exact operands o ho o' h (he.1 o ho)
      · rintro rows rfl
        cases hop'
  statement s columns conditions ordering origin s' h hs := by
    obtain ⟨horigin, hcolumns, hconditions, hkeys, _⟩ := Select.agrees_iff.mp h
    have hderived : ∀ rows' source, s'.origin = .derived rows' source →
        ∃ rows, s.origin = .derived rows source ∧ rows.agrees rows' = true := by
      intro rows' source ho
      rw [ho] at horigin
      generalize s.origin = o at horigin
      cases Origin.agrees_iff.mp horigin with
      | derived hrows => exact ⟨_, rfl, hrows⟩
    refine .intro ?_ ?_ ?_ ?_ ?_
    · intro c' hc'
      obtain ⟨c, hc, h⟩ := exists_of_forall₂_right hcolumns hc'
      exact columns c hc c'.expr h.1 (hs.columns c hc)
    · intro e' he'
      obtain ⟨e, he, h⟩ := exists_of_forall₂_right hconditions he'
      exact conditions e he e' h (hs.conditions e he)
    · intro k' hk'
      obtain ⟨k, hk, h⟩ := exists_of_forall₂_right hkeys hk'
      exact ordering k hk k'.expr h.1 (hs.ordering k hk)
    · intro rows' source ho
      obtain ⟨rows, ho, h⟩ := hderived rows' source ho
      exact origin rows source ho rows' h (hs.origin rows source ho)
    · intro rows' source ho
      obtain ⟨rows, ho, h⟩ := hderived rows' source ho
      have hnames : rows.columns.map Column.alias? = rows'.columns.map Column.alias? :=
        map_eq_of_forall₂ (Select.agrees_iff.mp h).2.1 fun _ _ _ h => h.2
      have hfilter : ∀ cs : List Column,
          cs.filterMap Column.alias? = (cs.map Column.alias?).filterMap id := by
        intro cs
        rw [List.filterMap_map]
        rfl
      have hdistinct := hs.distinct rows source ho
      rwa [hfilter, hnames, ← hfilter] at hdistinct

/-- What agrees with an accepted expression is accepted. -/
theorem Expr.Accepted.of_agrees {e e' : Expr} (he : e.Accepted) (h : e.agrees e' = true) :
    e'.Accepted :=
  inherited_accepted.of_expr e e' h he

end QueryLoom.Sql
