/-
  QueryLoom/Text/FreeName.lean
  ============================
  **Numbered names that are not taken**: `t0`, `t1` and so on, leaving out those of a list.
-/
namespace QueryLoom.Text

/-- A letter or word with a number after it. -/
def numbered (stem : String) (i : Nat) : String := stem ++ toString i

/-- The `n`-th number from `i` on that is free, counted from zero.  The fuel bounds the
    numbers that are looked at. -/
def nthFree (isTaken : Nat → Bool) : Nat → Nat → Nat → Nat
  | 0, _, i => i
  | fuel + 1, n, i =>
    if isTaken i then nthFree isTaken fuel n (i + 1)
    else match n with
      | 0 => i
      | n + 1 => nthFree isTaken fuel n (i + 1)

/-- The number of the `n`-th name from `i` on that is not taken. -/
def freeNumber (stem : String) (taken : List String) (n i : Nat) : Nat :=
  nthFree (fun i => taken.contains (numbered stem i)) (taken.length + n + 1) n i

/-- A number that is free is found at once. -/
theorem nthFree_of_free {isTaken : Nat → Bool} {fuel i : Nat} (h : isTaken i = false) :
    nthFree isTaken (fuel + 1) 0 i = i := by
  simp [nthFree, h]

/-- A number that is taken is passed over. -/
theorem nthFree_of_taken {isTaken : Nat → Bool} {fuel n i : Nat} (h : isTaken i = true) :
    nthFree isTaken (fuel + 1) n i = nthFree isTaken fuel n (i + 1) := by
  simp [nthFree, h]

end QueryLoom.Text
