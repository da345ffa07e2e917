/-
  QueryLoom/Proofs/Text/FreeName.lean
  ===================================
  **The search for a free name finds one.**  Different numbers give different names, so a list
  of taken names takes at most as many numbers as it is long.  The fuel of the search is larger
  than that, and the search ends at the wanted number before the fuel does.
-/
import Mathlib.Data.List.Nodup
import Mathlib.Data.List.Perm.Subperm
import QueryLoom.Text.FreeName

namespace QueryLoom.Text

theorem numbered_injective (stem : String) : Function.Injective (numbered stem) := by
  intro i j h
  have hdigits := congrArg String.toList h
  simp only [numbered, String.toList_append, List.append_cancel_left_eq,
    Nat.toString_eq_ofList_toDigits, String.toList_ofList] at hdigits
  have hvalue := congrArg (fun ds => Nat.ofDigitChars 10 ds 0) hdigits
  simpa using hvalue

/-- A list takes at most as many numbers as it has names. -/
theorem countP_taken_le (stem : String) (taken : List String) (i k : Nat) :
    (List.range' i k).countP (fun j => taken.contains (numbered stem j)) ≤ taken.length := by
  rw [List.countP_eq_length_filter]
  have hnodup : (((List.range' i k).filter fun j => taken.contains (numbered stem j)).map
      (numbered stem)).Nodup :=
    (List.Nodup.filter _ List.nodup_range').map (numbered_injective stem)
  have hsubset : ((List.range' i k).filter fun j => taken.contains (numbered stem j)).map
      (numbered stem) ⊆ taken := by
    intro name hname
    obtain ⟨j, hj, rfl⟩ := List.mem_map.mp hname
    simpa using (List.mem_filter.mp hj).2
  have hlength := (List.subperm_of_subset hnodup hsubset).length_le
  rwa [List.length_map] at hlength

/-- With enough fuel the search ends at a free number that `n` free numbers come before. -/
theorem nthFree_spec {isTaken : Nat → Bool} {fuel n i : Nat}
    (h : n + (List.range' i fuel).countP isTaken < fuel) :
    i ≤ nthFree isTaken fuel n i ∧ isTaken (nthFree isTaken fuel n i) = false ∧
      (List.range' i (nthFree isTaken fuel n i - i)).countP (fun j => !isTaken j) = n := by
  induction fuel generalizing n i with
  | zero => exact absurd h (Nat.not_lt_zero _)
  | succ fuel ih =>
    rw [List.range'_succ, List.countP_cons] at h
    cases htaken : isTaken i with
    | true =>
      rw [htaken, if_pos rfl] at h
      obtain ⟨hle, hfree, hcount⟩ := ih (n := n) (i := i + 1) (by omega)
      rw [nthFree_of_taken htaken]
      refine ⟨by omega, hfree, ?_⟩
      rw [show nthFree isTaken fuel n (i + 1) - i = (nthFree isTaken fuel n (i + 1) - (i + 1)) + 1
        by omega, List.range'_succ, List.countP_cons, hcount, htaken]
      rfl
    | false =>
      rw [htaken] at h
      cases n with
      | zero =>
        rw [nthFree_of_free htaken]
        refine ⟨Nat.le_refl i, htaken, ?_⟩
        rw [Nat.sub_self]
        rfl
      | succ n =>
        have hstep : nthFree isTaken (fuel + 1) (n + 1) i = nthFree isTaken fuel n (i + 1) := by
          simp [nthFree, htaken]
        obtain ⟨hle, hfree, hcount⟩ := ih (n := n) (i := i + 1) (by
          simp only [Bool.false_eq_true, if_false] at h
          omega)
        rw [hstep]
        refine ⟨by omega, hfree, ?_⟩
        rw [show nthFree isTaken fuel n (i + 1) - i = (nthFree isTaken fuel n (i + 1) - (i + 1)) + 1
          by omega, List.range'_succ, List.countP_cons, hcount, htaken]
        rfl

/-- The number found is free, and `n` free numbers come before it. -/
theorem freeNumber_spec (stem : String) (taken : List String) (n i : Nat) :
    i ≤ freeNumber stem taken n i ∧ numbered stem (freeNumber stem taken n i) ∉ taken ∧
      (List.range' i (freeNumber stem taken n i - i)).countP
        (fun j => !taken.contains (numbered stem j)) = n := by
  have hcount := countP_taken_le stem taken i (taken.length + n + 1)
  have hfuel : n + (List.range' i (taken.length + n + 1)).countP
      (fun j => taken.contains (numbered stem j)) < taken.length + n + 1 := by omega
  obtain ⟨hle, hfree, hbefore⟩ := nthFree_spec hfuel
  rw [List.contains_eq_mem, decide_eq_false_iff_not] at hfree
  exact ⟨hle, hfree, hbefore⟩

end QueryLoom.Text
