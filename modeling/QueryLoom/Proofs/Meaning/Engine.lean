/-
  QueryLoom/Proofs/Meaning/Engine.lean
  ====================================
  **What rows are filtered and arranged by.**  An `Engine` interprets expressions and says
  besides which values hold as a condition, how many rows a parameter counts and which of
  two values comes first.  Keys of an ordering are compared from left to right, and a later
  key decides only where the earlier ones leave a tie.

    * `exists_sorted_filter` — a sorted arrangement of the rows that meet a condition is what
      the condition leaves of some sorted arrangement of all rows;
    * `exists_arrangement` — the rows of a window can be put in any other sorted order by
      putting the arrangement that they were taken from in another sorted order.
-/
import Mathlib.Data.List.Perm.Basic
import QueryLoom.Proofs.Meaning.Interpretation

namespace QueryLoom.Sql

/-! ### Engines -/

/-- The meaning of expressions, conditions, counts and orderings. -/
structure Engine (V : Type) extends Interpretation V where
  /-- Whether a row with this value for a condition is kept. -/
  holds : V → Bool
  /-- The number of rows that a parameter stands for. -/
  count : Parameter → Nat
  /-- Whether a row with the first value may stand before one with the second. -/
  precedes : Direction → V → V → Bool
  precedes_total (d : Direction) (v w : V) : precedes d v w = true ∨ precedes d w v = true
  precedes_trans {d : Direction} {u v w : V} (huv : precedes d u v = true)
    (hvw : precedes d v w = true) : precedes d u w = true

namespace Engine

variable {V : Type} (E : Engine V)

/-- Whether a row with the first keys may stand before one with the second. -/
def inOrder : List Direction → List V → List V → Bool
  | d :: ds, v :: vs, w :: ws =>
    E.precedes d v w && (!E.precedes d w v || inOrder ds vs ws)
  | _ :: _, _ :: _, [] => false
  | _, _, _ => true

theorem inOrder_total (ds : List Direction) (vs ws : List V) :
    (E.inOrder ds vs ws || E.inOrder ds ws vs) = true := by
  induction ds generalizing vs ws with
  | nil => simp [inOrder]
  | cons d ds ih =>
    cases vs with
    | nil => simp [inOrder]
    | cons v vs =>
      cases ws with
      | nil => simp [inOrder]
      | cons w ws =>
        have hfirst := E.precedes_total d v w
        have hrest := ih vs ws
        simp only [inOrder]
        cases hvw : E.precedes d v w <;> cases hwv : E.precedes d w v <;> simp_all

theorem inOrder_trans (ds : List Direction) (us vs ws : List V)
    (huv : E.inOrder ds us vs = true) (hvw : E.inOrder ds vs ws = true) :
    E.inOrder ds us ws = true := by
  induction ds generalizing us vs ws with
  | nil => simp [inOrder]
  | cons d ds ih =>
    rcases us with _ | ⟨u, us⟩
    · simp [inOrder]
    rcases vs with _ | ⟨v, vs⟩
    · simp [inOrder] at huv
    rcases ws with _ | ⟨w, ws⟩
    · simp [inOrder] at hvw
    simp only [inOrder, Bool.and_eq_true, Bool.or_eq_true, Bool.not_eq_true'] at huv hvw ⊢
    refine ⟨E.precedes_trans huv.1 hvw.1, ?_⟩
    cases hwu : E.precedes d w u with
    | false => exact .inl rfl
    | true =>
      -- all three tie on the first key
      have hvu := E.precedes_trans hvw.1 hwu
      have hwv := E.precedes_trans hwu huv.1
      right
      refine ih us vs ws ?_ ?_
      · exact huv.2.resolve_left (by simp [hvu])
      · exact hvw.2.resolve_left (by simp [hwv])

/-- Rows in the order of more keys are in the order of the first of them. -/
theorem inOrder_of_append {ds es : List Direction} {vs ws vs' ws' : List V}
    (hvs : vs.length = ds.length) (hws : ws.length = ds.length)
    (h : E.inOrder (ds ++ es) (vs ++ vs') (ws ++ ws') = true) :
    E.inOrder ds vs ws = true := by
  induction ds generalizing vs ws with
  | nil => simp [inOrder]
  | cons d ds ih =>
    rcases vs with _ | ⟨v, vs⟩
    · simp at hvs
    rcases ws with _ | ⟨w, ws⟩
    · simp at hws
    simp only [List.cons_append, inOrder, Bool.and_eq_true, Bool.or_eq_true] at h ⊢
    simp only [List.length_cons, Nat.add_right_cancel_iff] at hvs hws
    exact ⟨h.1, h.2.imp_right (ih hvs hws)⟩

end Engine

/-! ### Sorted arrangements -/

section Arrangements

variable {α β : Type}

theorem mergeSort_pair (le : α → α → Bool) (a b : α) :
    [a, b].mergeSort le = if le a b then [a, b] else [b, a] := by
  rw [List.mergeSort]
  simp [List.MergeSort.Internal.splitInTwo, List.merge]

/-- To filter out what was merged in leaves what was there before. -/
theorem filter_merge (le : α → α → Bool) (p : α → Bool) {kept others : List α}
    (hkept : ∀ a ∈ kept, p a = true) (hothers : ∀ a ∈ others, p a = false) :
    (List.merge kept others le).filter p = kept := by
  induction kept generalizing others with
  | nil => simpa [List.merge] using hothers
  | cons a kept ihk =>
    have hrest := fun b hb => hkept b (List.mem_cons_of_mem a hb)
    induction others with
    | nil => simpa [List.merge] using hkept
    | cons b others iho =>
      rw [List.merge]
      split
      · rw [List.filter_cons_of_pos (hkept a List.mem_cons_self), ihk hrest hothers]
      · rw [List.filter_cons_of_neg (by simp [hothers b List.mem_cons_self])]
        exact iho fun c hc => hothers c (List.mem_cons_of_mem b hc)

/-- A sorted arrangement of the rows that meet a condition is what the condition leaves of
    some sorted arrangement of all rows. -/
theorem exists_sorted_filter {le : α → α → Bool}
    (trans : ∀ a b c, le a b = true → le b c = true → le a c = true)
    (total : ∀ a b, (le a b || le b a) = true) {p : α → Bool} {kept rows : List α}
    (hperm : kept.Perm (rows.filter p)) (hsorted : kept.Pairwise fun a b => le a b = true) :
    ∃ all : List α, all.Perm rows ∧ (all.Pairwise fun a b => le a b = true) ∧
      all.filter p = kept := by
  let others := (rows.filter fun a => !p a).mergeSort le
  have hothers : others.Perm (rows.filter fun a => !p a) := List.mergeSort_perm _ le
  refine ⟨List.merge kept others le, ?_, ?_, ?_⟩
  · exact (List.merge_perm_append le).trans
      ((hperm.append hothers).trans (List.filter_append_perm p rows))
  · exact List.pairwise_merge trans total _ _ hsorted (List.pairwise_mergeSort trans total _)
  · refine filter_merge le p ?_ ?_
    · intro a ha
      exact (List.mem_filter.mp (hperm.mem_iff.mp ha)).2
    · intro a ha
      simpa using (List.mem_filter.mp (hothers.mem_iff.mp ha)).2

/-- A list that has the images of others in any order is the image of those in some order. -/
theorem exists_perm_map {f : α → β} {images : List β} {rows : List α}
    (h : images.Perm (rows.map f)) : ∃ others : List α, others.Perm rows ∧ others.map f = images := by
  obtain ⟨others, heq, hperm⟩ := (congrFun₂ (List.eq_map_comp_perm f) images rows).mpr h
  exact ⟨others, hperm, heq.symm⟩

/-- The rows of a window can be put in any other sorted order by putting the arrangement that
    they were taken from in another sorted order. -/
theorem exists_arrangement {le : α → α → Prop} {rows window : List α} {skipped taken : Nat}
    (hsorted : rows.Pairwise le) (hperm : window.Perm ((rows.drop skipped).take taken))
    (hwindow : window.Pairwise le) :
    ∃ others : List α, others.Perm rows ∧ others.Pairwise le ∧
      (others.drop skipped).take taken = window := by
  have hsplit : rows = rows.take skipped ++ ((rows.drop skipped).take taken
      ++ (rows.drop skipped).drop taken) := by
    rw [List.take_append_drop, List.take_append_drop]
  have hlength := hperm.length_eq
  rw [hsplit, List.pairwise_append, List.pairwise_append] at hsorted
  obtain ⟨hbefore, ⟨_, hafter, hwa⟩, hbwa⟩ := hsorted
  refine ⟨rows.take skipped ++ (window ++ (rows.drop skipped).drop taken), ?_, ?_, ?_⟩
  · conv_rhs => rw [hsplit]
    exact (hperm.append_right _).append_left _
  · rw [List.pairwise_append, List.pairwise_append]
    refine ⟨hbefore, ⟨hwindow, hafter, ?_⟩, ?_⟩
    · intro a ha b hb
      exact hwa a (hperm.mem_iff.mp ha) b hb
    · intro a ha b hb
      refine hbwa a ha b ?_
      rw [List.mem_append] at hb ⊢
      exact hb.imp_left hperm.mem_iff.mp
  · rw [List.length_take, List.length_drop] at hlength
    by_cases hskipped : skipped ≤ rows.length
    · rw [List.drop_append_of_le_length (by simp [hskipped])]
      simp only [List.drop_take, Nat.sub_self, List.take_zero, List.nil_append]
      by_cases htaken : taken ≤ rows.length - skipped
      · rw [List.take_append_of_le_length (by omega), List.take_of_length_le (by omega)]
      · rw [List.drop_eq_nil_of_le (by simp only [List.length_drop]; omega), List.append_nil,
          List.take_of_length_le (by omega)]
    · have hnil : window = [] := List.length_eq_zero_iff.mp (by omega)
      simp only [hnil, List.nil_append]
      rw [List.drop_eq_nil_of_le, List.take_nil]
      simp only [List.length_append, List.length_take, List.length_drop]
      omega

end Arrangements

end QueryLoom.Sql
