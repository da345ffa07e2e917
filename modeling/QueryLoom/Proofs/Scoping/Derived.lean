/-
  QueryLoom/Proofs/Scoping/Derived.lean
  =====================================
  **The derived tables of a statement, each as often as it is written.**  The SELECT of a statement
  reads from a table or from a derived table, whose statement may read from a derived table
  again; `Select.spine` lists these from the outside in.  Every other derived table stands in a test
  for rows, at some depth, and is on the spine of the statement that is tested there.  A test that
  is written twice is walked twice, so its derived tables are listed twice.

  `Portion` is what a part of a statement brings with it: a spine and the expressions in it.

    * `mem_tables_iff` — the derived tables of a statement are the origins of its SELECTs;
    * `walk_eq`, `Select.walk_eq` — an expression and a statement are walked operand by operand and
      clause by clause;
    * `walk_sublist_of_mem_walk` — what is in an expression of a statement is walked in its place.
-/
import Mathlib.Data.List.Flatten
import QueryLoom.Proofs.Scoping.Walked

namespace QueryLoom.Sql

/-- A derived table: its alias, and the statement that its rows come from. -/
structure DerivedTable where
  source : String
  rows : Select

mutual

/-- The derived tables that a statement reads from, one in the other. -/
def Select.spine : Select → List DerivedTable
  | ⟨_, origin, _, _, _⟩ => origin.spine

/-- The derived table of an origin and those that it reads from. -/
def Origin.spine : Origin → List DerivedTable
  | .table .. | .singleRow => []
  | .derived rows source => ⟨source, rows⟩ :: rows.spine

end

theorem Select.spine_eq (s : Select) : s.spine = s.origin.spine := by
  rcases s with ⟨columns, origin, conditions, ordering, window?⟩
  rfl

/-- The derived tables that the statement of a test reads from. -/
def Expr.spine : Expr → List DerivedTable
  | .existsRow rows => rows.spine
  | _ => []

/-! ### Portions -/

/-- What a part of a statement brings with it: the derived tables that are read from, and the
    expressions that are walked. -/
structure Portion where
  spine : List DerivedTable
  walked : List Expr

/-- The derived tables of a portion, each as often as it is written. -/
def Portion.tables (p : Portion) : List DerivedTable := p.spine ++ p.walked.flatMap Expr.spine

/-- An expression by itself. -/
def Expr.portion (e : Expr) : Portion := ⟨[], e.walk⟩

/-- The origin of rows by itself. -/
def Origin.portion (o : Origin) : Portion := ⟨o.spine, o.walk⟩

/-- A whole statement. -/
def Select.portion (s : Select) : Portion := ⟨s.spine, s.walk⟩

theorem mem_tables {t : DerivedTable} {p : Portion} :
    t ∈ p.tables ↔ t ∈ p.spine ∨ ∃ e ∈ p.walked, t ∈ e.spine := by
  rw [Portion.tables, List.mem_append, List.mem_flatMap]

theorem tables_expr (e : Expr) : e.portion.tables = e.walk.flatMap Expr.spine := rfl

theorem Portion.tables_subset {p p' : Portion} (hspine : p.spine ⊆ p'.tables)
    (hwalked : p.walked ⊆ p'.walked) : p.tables ⊆ p'.tables := by
  intro t ht
  rcases mem_tables.mp ht with ht | ⟨e, he, ht⟩
  · exact hspine ht
  · exact mem_tables.mpr (.inr ⟨e, hwalked he, ht⟩)

/-! ### Origins of SELECTs -/

theorem Select.Block.trans {s t u : Select} {items around further : List Item}
    (h : s.Block items t around) (h' : t.Block around u further) : s.Block items u further := by
  induction h with
  | self => exact h'
  | derived horigin _ ih => exact .derived horigin (ih h')
  | test he hrows _ ih => exact .test he hrows (ih h')

/-- What is on the spine of a statement is the origin of one of its SELECTs. -/
theorem block_of_mem_spine {source : String} {rows : Select} (items : List Item) : (s : Select) →
    ⟨source, rows⟩ ∈ s.spine → ∃ t, s.Block items t items ∧ t.origin = .derived rows source
  | ⟨columns, .table .., conditions, ordering, window?⟩, h
  | ⟨columns, .singleRow, conditions, ordering, window?⟩, h => absurd h List.not_mem_nil
  | ⟨columns, .derived inner shown, conditions, ordering, window?⟩, h => by
    rw [Select.spine, Origin.spine, List.mem_cons] at h
    rcases h with heq | h
    · cases heq
      exact ⟨_, .self, rfl⟩
    · obtain ⟨t, hblock, horigin⟩ := block_of_mem_spine items inner h
      exact ⟨t, .derived rfl hblock, horigin⟩

/-- The derived tables of a SELECT of a statement are derived tables of the statement. -/
theorem Select.Block.tables_subset {s t : Select} {items around : List Item}
    (h : s.Block items t around) : t.portion.tables ⊆ s.portion.tables := by
  induction h with
  | self => exact List.Subset.refl _
  | @derived s inner t source items around horigin hblock ih =>
    have hinner : s.Block items inner items := .derived horigin .self
    refine List.Subset.trans ih (Portion.tables_subset ?_ hinner.walk_subset)
    intro x hx
    refine mem_tables.mpr (.inl ?_)
    rw [Select.portion, s.spine_eq, horigin]
    exact List.mem_cons_of_mem _ hx
  | @test s rows t e items around he hrows hblock ih =>
    have htest : .existsRow rows ∈ s.walk :=
      walk_subset_of_mem_clauses he ((parts_sublist_walk e).subset hrows)
    have hrows : s.Block items rows (s.item?.toList ++ items) := .test he hrows .self
    refine List.Subset.trans ih (Portion.tables_subset ?_ hrows.walk_subset)
    exact fun x hx => mem_tables.mpr (.inr ⟨_, htest, hx⟩)

/-- The derived tables of a statement are the origins of its SELECTs, at any depth. -/
theorem mem_tables_iff {s : Select} {source : String} {rows : Select} :
    ⟨source, rows⟩ ∈ s.portion.tables ↔
      ∃ t around, s.Block [] t around ∧ t.origin = .derived rows source := by
  constructor
  · intro h
    rcases mem_tables.mp h with h | ⟨e, he, h⟩
    · obtain ⟨t, hblock, horigin⟩ := block_of_mem_spine [] s h
      exact ⟨t, [], hblock, horigin⟩
    · cases e with
      | existsRow tested =>
        obtain ⟨u, around, hu, e, he, htest⟩ := holds_of_mem_walk s he []
        obtain ⟨t, ht, horigin⟩ := block_of_mem_spine (u.item?.toList ++ around) tested h
        exact ⟨t, _, hu.trans (.test he htest ht), horigin⟩
      | _ => exact absurd h List.not_mem_nil
  · rintro ⟨t, around, hblock, horigin⟩
    refine hblock.tables_subset (mem_tables.mpr (.inl ?_))
    rw [Select.portion, t.spine_eq, horigin]
    exact List.mem_cons_self

/-! ### Walking in place -/

theorem walkList_eq_flatMap (es : List Expr) : walkList es = es.flatMap Expr.walk := by
  induction es with
  | nil => rfl
  | cons e rest ih => rw [walkList, ih, List.flatMap_cons]

theorem walkOption_eq_flatMap (e? : Option Expr) : walkOption e? = e?.toList.flatMap Expr.walk := by
  cases e? <;> simp [walkOption]

/-- An expression that is no test is walked before its operands. -/
theorem walk_eq {e : Expr} (h : e.isExists = false) :
    e.walk = e :: e.operands.flatMap Expr.walk := by
  have hwhens : ∀ ws : List When, walkWhens ws
      = (ws.flatMap fun w => [w.condition, w.result]).flatMap Expr.walk := by
    intro ws
    induction ws with
    | nil => rfl
    | cons w rest ih =>
      rcases w with ⟨condition, result⟩
      simp [walkWhens, ih]
  cases e with
  | existsRow rows => cases h
  | _ => simp [Expr.walk, Expr.operands, walkList_eq_flatMap, walkOption_eq_flatMap, hwhens]

/-- A statement is walked clause by clause. -/
theorem Select.walk_eq (s : Select) : s.walk =
    (s.columns.map (fun c => c.expr.walk) ++ [s.origin.walk] ++ s.conditions.map Expr.walk
      ++ s.ordering.map (fun k => k.expr.walk)
      ++ (s.window?.toList.flatMap fun w => w.lower :: w.upper?.toList).map Expr.walk).flatten := by
  have hcolumns : ∀ cs : List Column, walkColumns cs = (cs.map fun c => c.expr.walk).flatten := by
    intro cs
    induction cs with
    | nil => rfl
    | cons c rest ih =>
      rcases c with ⟨e, alias?⟩
      rw [walkColumns, ih, List.map_cons, List.flatten_cons]
  have hkeys : ∀ ks : List OrderKey, walkKeys ks = (ks.map fun k => k.expr.walk).flatten := by
    intro ks
    induction ks with
    | nil => rfl
    | cons k rest ih =>
      rcases k with ⟨e, direction⟩
      rw [walkKeys, ih, List.map_cons, List.flatten_cons]
  have hwindow : ∀ w? : Option Window, walkWindow w? =
      ((w?.toList.flatMap fun w => w.lower :: w.upper?.toList).map Expr.walk).flatten := by
    rintro (_ | ⟨lower, upper?⟩)
    · rfl
    · simp [walkWindow, walkOption_eq_flatMap, List.flatMap_def]
  rcases s with ⟨columns, origin, conditions, ordering, window?⟩
  simp only [Select.walk, hcolumns, walkList_eq_flatMap, List.flatMap_def, hkeys, hwindow,
    List.flatten_append, List.flatten_singleton]

theorem walk_sublist_of_mem_operands {e o : Expr} (ho : o ∈ e.operands) :
    o.walk.Sublist e.walk := by
  cases he : e.isExists with
  | true =>
    cases e with
    | existsRow rows => cases ho
    | _ => cases he
  | false =>
    rw [walk_eq he]
    exact (List.sublist_flatten_of_mem (List.mem_map_of_mem ho)).cons _

mutual

/-- What is in an expression is walked in its place. -/
theorem walk_sublist_of_mem_walk {x : Expr} (e : Expr) (hx : x ∈ e.walk) :
    x.walk.Sublist e.walk := by
  cases he : e.isExists with
  | true =>
    cases e with
    | existsRow rows =>
      rw [Expr.walk, List.mem_cons] at hx
      rcases hx with rfl | hx
      · exact List.Sublist.refl _
      · exact (walk_sublist_of_mem_walk_select rows hx).cons _
    | _ => cases he
  | false =>
    rw [walk_eq he, List.mem_cons] at hx
    rcases hx with rfl | hx
    · exact List.Sublist.refl _
    · obtain ⟨o, ho, hx⟩ := List.mem_flatMap.mp hx
      have := sizeOf_lt_of_mem_operands ho
      exact (walk_sublist_of_mem_walk o hx).trans (walk_sublist_of_mem_operands ho)
termination_by sizeOf e

/-- What is in a statement is walked in its place. -/
theorem walk_sublist_of_mem_walk_select {x : Expr} (s : Select) (hx : x ∈ s.walk) :
    x.walk.Sublist s.walk := by
  rw [s.walk_eq] at hx ⊢
  obtain ⟨walked, hwalked, hx⟩ := List.mem_flatten.mp hx
  refine List.Sublist.trans ?_ (List.sublist_flatten_of_mem hwalked)
  have hclause : walked = s.origin.walk ∨ ∃ e ∈ s.clauses, walked = e.walk := by
    simp only [List.mem_append, List.mem_map, List.mem_singleton] at hwalked
    simp only [Select.clauses, List.mem_append, List.mem_map]
    rcases hwalked with (((⟨c, hc, rfl⟩ | rfl) | ⟨e, he, rfl⟩) | ⟨k, hk, rfl⟩) | ⟨e, he, rfl⟩
    · exact .inr ⟨_, .inl (.inl (.inl ⟨c, hc, rfl⟩)), rfl⟩
    · exact .inl rfl
    · exact .inr ⟨_, .inl (.inl (.inr he)), rfl⟩
    · exact .inr ⟨_, .inl (.inr ⟨k, hk, rfl⟩), rfl⟩
    · exact .inr ⟨_, .inr he, rfl⟩
  rcases hclause with rfl | ⟨e, he, rfl⟩
  · cases horigin : s.origin with
    | derived rows source =>
      have := sizeOf_lt_of_origin horigin
      rw [horigin] at hx
      exact walk_sublist_of_mem_walk_select rows hx
    | table | singleRow =>
      rw [horigin] at hx
      exact absurd hx List.not_mem_nil
  · have := sizeOf_lt_of_mem_clauses he
    exact walk_sublist_of_mem_walk e hx
termination_by sizeOf s

end

end QueryLoom.Sql
