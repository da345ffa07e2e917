/-
  QueryLoom/Proofs/Text/Splitting.lean
  ====================================
  **Texts that are split at a character.**  `splitOnce` splits at the first one, and what stands in
  front of it does not have the character.
-/
import QueryLoom.Text.Scan

namespace QueryLoom.Text

theorem splitOnce_eq_none_iff {c : Char} {cs : List Char} :
    splitOnce c cs = none ↔ c ∉ cs := by
  induction cs with
  | nil => simp [splitOnce]
  | cons d rest ih =>
    rw [splitOnce]
    by_cases hd : d = c
    · simp [hd]
    · rw [if_neg hd, Option.map_eq_none_iff, ih, List.mem_cons, not_or]
      exact (and_iff_right (Ne.symm hd)).symm

theorem splitOnce_append {c : Char} {before : List Char} (hbefore : c ∉ before)
    (after : List Char) : splitOnce c (before ++ c :: after) = some (before, after) := by
  induction before with
  | nil => simp [splitOnce]
  | cons d before ih =>
    obtain ⟨hd, hrest⟩ := not_or.mp (mt List.mem_cons.mpr hbefore)
    rw [List.cons_append, splitOnce, if_neg (Ne.symm hd), ih hrest]
    rfl

/-- A text is split at the first occurrence of the character. -/
theorem splitOnce_eq_some_iff {c : Char} {cs before after : List Char} :
    splitOnce c cs = some (before, after) ↔ cs = before ++ c :: after ∧ c ∉ before := by
  constructor
  · intro h
    refine ⟨eq_append_of_splitOnce h, ?_⟩
    induction cs generalizing before after with
    | nil => simp [splitOnce] at h
    | cons d rest ih =>
      rw [splitOnce] at h
      split at h
      · cases h
        exact List.not_mem_nil
      · rename_i hd
        obtain ⟨⟨b, a⟩, hb, he⟩ := Option.map_eq_some_iff.mp h
        cases he
        exact List.not_mem_cons_of_ne_of_not_mem (Ne.symm hd) (ih hb)
  · rintro ⟨rfl, hbefore⟩
    exact splitOnce_append hbefore after

end QueryLoom.Text
