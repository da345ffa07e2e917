/-
  QueryLoom/Proofs/Scoping/Walked.lean
  ====================================
  **Walking a statement meets what the statement holds, and nothing else.**  A statement holds
  an expression that is a part of a clause of one of its SELECTs, at any depth.  All of
  them are walked (`holds_of_mem_walk`); here is the converse, from operands to expressions, from
  clauses to SELECTs and from SELECT to SELECT.
-/
import QueryLoom.Proofs.Drafting.Vocabulary
import QueryLoom.Proofs.Meaning.Operands

namespace QueryLoom.Sql

/-- An operand is walked where its operation is. -/
theorem walk_subset_of_mem_operands {e o : Expr} (ho : o ∈ e.operands) : o.walk ⊆ e.walk := by
  have hoption : ∀ {e? : Option Expr}, o ∈ e?.toList → o.walk ⊆ walkOption e? := by
    rintro (_ | e) h
    · cases h
    · rw [List.mem_singleton.mp h]
      exact fun _ hx => hx
  have hwhens : ∀ ws : List When, o ∈ ws.flatMap (fun w => [w.condition, w.result]) →
      o.walk ⊆ walkWhens ws := by
    intro ws
    induction ws with
    | nil => simp
    | cons w rest ih =>
      rcases w with ⟨condition, result⟩
      intro h x hx
      rw [walkWhens, List.mem_append, List.mem_append]
      rcases List.mem_append.mp h with h | h
      · simp only [List.mem_cons, List.not_mem_nil, or_false] at h
        rcases h with rfl | rfl
        · exact .inl (.inl hx)
        · exact .inl (.inr hx)
      · exact .inr (ih h hx)
  intro x hx
  cases e with
  | column | allColumns | literal | parameter | keyword | existsRow => cases ho
  | function name args =>
    rw [Expr.walk, List.mem_cons]
    exact .inr (mem_walkList.mpr ⟨o, ho, hx⟩)
  | trim side? chars? text =>
    rw [Expr.walk, List.mem_cons, List.mem_append]
    rcases List.mem_append.mp ho with h | h
    · exact .inr (.inl (hoption h hx))
    · rw [List.mem_singleton.mp h] at hx
      exact .inr (.inr hx)
  | substring text start length? =>
    rw [Expr.walk, List.mem_cons, List.mem_append, List.mem_append]
    rcases List.mem_cons.mp ho with rfl | h
    · exact .inr (.inl (.inl hx))
    · rcases List.mem_cons.mp h with rfl | h
      · exact .inr (.inl (.inr hx))
      · exact .inr (.inr (hoption h hx))
  | extract | cast | atTimeZone | unary | isNull =>
    rw [List.mem_singleton.mp ho] at hx
    rw [Expr.walk]
    exact List.mem_cons_of_mem _ hx
  | position left right | dateAdd left part right | binary left op right =>
    rw [Expr.walk, List.mem_cons, List.mem_append]
    rcases List.mem_cons.mp ho with rfl | h
    · exact .inr (.inl hx)
    · rw [List.mem_singleton.mp h] at hx
      exact .inr (.inr hx)
  | case whens otherwise? =>
    rw [Expr.walk, List.mem_cons, List.mem_append]
    rcases List.mem_append.mp ho with h | h
    · exact .inr (.inl (hwhens whens h hx))
    · exact .inr (.inr (hoption h hx))

/-- The statement of a test is walked where the test is. -/
theorem walk_subset_of_mem_parts {e : Expr} {rows : Select} (h : .existsRow rows ∈ e.parts) :
    rows.walk ⊆ e.walk := by
  rw [parts_eq, List.mem_cons] at h
  rcases h with rfl | h
  · rw [Expr.walk]
    exact List.subset_cons_self _ _
  · obtain ⟨o, ho, hrows⟩ := List.mem_flatMap.mp h
    have := sizeOf_lt_of_mem_operands ho
    exact List.Subset.trans (walk_subset_of_mem_parts hrows) (walk_subset_of_mem_operands ho)
termination_by sizeOf e

theorem sizeOf_lt_of_mem_clauses {s : Select} {e : Expr} (h : e ∈ s.clauses) :
    sizeOf e < sizeOf s := by
  simp only [Select.clauses, List.mem_append] at h
  rcases h with ((h | h) | h) | h
  · obtain ⟨c, hc, rfl⟩ := List.mem_map.mp h
    exact sizeOf_lt_of_mem_columns hc
  · exact sizeOf_lt_of_mem_conditions h
  · obtain ⟨k, hk, rfl⟩ := List.mem_map.mp h
    exact sizeOf_lt_of_mem_ordering hk
  · obtain ⟨w, hw, he⟩ := List.mem_flatMap.mp h
    obtain ⟨hlower, hupper⟩ := sizeOf_lt_of_mem_window (Option.mem_toList.mp hw)
    rcases List.mem_cons.mp he with rfl | he
    · exact hlower
    · exact hupper e (Option.mem_toList.mp he)

theorem walk_subset_of_mem_clauses {s : Select} {e : Expr} (he : e ∈ s.clauses) :
    e.walk ⊆ s.walk := by
  rcases s with ⟨columns, origin, conditions, ordering, window?⟩
  intro x hx
  simp only [Select.clauses, List.mem_append] at he
  simp only [Select.walk, List.mem_append]
  rcases he with ((h | h) | h) | h
  · obtain ⟨c, hc, rfl⟩ := List.mem_map.mp h
    exact .inl (.inl (.inl (.inl (mem_walkColumns.mpr ⟨c, hc, hx⟩))))
  · exact .inl (.inl (.inr (mem_walkList.mpr ⟨e, h, hx⟩)))
  · obtain ⟨k, hk, rfl⟩ := List.mem_map.mp h
    exact .inl (.inr (mem_walkKeys.mpr ⟨k, hk, hx⟩))
  · rcases window? with _ | ⟨lower, upper?⟩
    · cases h
    · rw [walkWindow, List.mem_append]
      rcases List.mem_cons.mp (by simpa using h : e ∈ lower :: upper?.toList) with rfl | h
      · exact .inr (.inl hx)
      · cases upper? with
        | none => cases h
        | some upper =>
          rw [List.mem_singleton.mp h] at hx
          exact .inr (.inr hx)

/-- A SELECT of a statement is walked where the statement is. -/
theorem Select.Block.walk_subset {s t : Select} {items around : List Item}
    (h : s.Block items t around) : t.walk ⊆ s.walk := by
  induction h with
  | self => exact fun _ hx => hx
  | @derived s inner t source items around horigin _ ih =>
    rcases s with ⟨columns, origin, conditions, ordering, window?⟩
    obtain rfl : origin = .derived inner source := horigin
    intro x hx
    simp only [Select.walk, Origin.walk, List.mem_append]
    exact .inl (.inl (.inl (.inr (ih hx))))
  | test he hrows _ ih =>
    exact List.Subset.trans (List.Subset.trans ih (walk_subset_of_mem_parts hrows))
      (walk_subset_of_mem_clauses he)

/-- Exactly the parts of the clauses of its SELECTs are walked in a statement. -/
theorem mem_walk_iff_holds {s : Select} {x : Expr} : x ∈ s.walk ↔ s.Holds x := by
  refine ⟨holds_of_mem_walk s, fun h => ?_⟩
  obtain ⟨t, around, hblock, e, he, hx⟩ := h []
  exact hblock.walk_subset (walk_subset_of_mem_clauses he ((parts_sublist_walk e).subset hx))

end QueryLoom.Sql
