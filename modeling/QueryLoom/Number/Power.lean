/-
  QueryLoom/Number/Power.lean
  ===========================
  **Powers of two and of ten**, the scales on which binary and decimal numbers are compared.
-/

namespace QueryLoom.Number

/-- Two to a power. -/
def twoTo (n : Nat) : Nat := Nat.pow 2 n

/-- Ten to a power. -/
def tenTo (n : Nat) : Nat := Nat.pow 10 n

end QueryLoom.Number
