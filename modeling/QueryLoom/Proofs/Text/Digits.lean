/-
  QueryLoom/Proofs/Text/Digits.lean
  =================================
  **A number written in decimal is read back.**  `natOf` is the value of a run of digits, and it
  undoes writing a number, with zeros in front or without.
-/
import Mathlib.Algebra.Group.Nat.Defs
import QueryLoom.Text.Scan

namespace QueryLoom.Text

variable {width n : Nat} {c : Char}

theorem natOf_eq_ofDigitChars (ds : List Char) : natOf ds = Nat.ofDigitChars 10 ds 0 := by
  simp only [natOf, Nat.ofDigitChars_eq_foldl, digitValue, Nat.mul_comm]

/-! ### Numbers as they are -/

theorem natOf_toString (n : Nat) : natOf (toString n).toList = n := by
  rw [natOf_eq_ofDigitChars, Nat.toString_eq_ofList_toDigits, String.toList_ofList,
    Nat.ofDigitChars_ten_toDigits]

theorem isDigit_of_mem_toString (hc : c ∈ (toString n).toList) : c.isDigit = true := by
  rw [Nat.toString_eq_ofList_toDigits, String.toList_ofList] at hc
  exact Nat.isDigit_of_mem_toDigits (by decide) (by decide) hc

theorem toList_toString_ne_nil (n : Nat) : (toString n).toList ≠ [] := by
  rw [Nat.toString_eq_ofList_toDigits, String.toList_ofList]
  exact Nat.toDigits_ne_nil

/-! ### Numbers of a fixed width -/

theorem natOf_padded (width n : Nat) : natOf (padded width n).toList = n := by
  rw [natOf_eq_ofDigitChars, padded, String.toList_ofList, Nat.ofDigitChars_append,
    Nat.ofDigitChars_replicate_zero, Nat.mul_zero, Nat.ofDigitChars_ten_toDigits]

theorem isDigit_of_mem_padded (hc : c ∈ (padded width n).toList) : c.isDigit = true := by
  rw [padded, String.toList_ofList] at hc
  rcases List.mem_append.mp hc with hzero | hdigit
  · rw [List.eq_of_mem_replicate hzero]
    decide
  · exact Nat.isDigit_of_mem_toDigits (by decide) (by decide) hdigit

/-- A number that fits into the width takes all of it. -/
theorem length_padded (hwidth : 0 < width) (hn : n < 10 ^ width) :
    (padded width n).toList.length = width := by
  have hlength := (Nat.length_toDigits_le_iff (by decide) hwidth).mpr hn
  rw [padded, String.toList_ofList, List.length_append, List.length_replicate]
  omega

end QueryLoom.Text
