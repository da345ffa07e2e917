/-
  QueryLoom/Number/Binary.lean
  ============================
  **Binary floating-point numbers as integers**: a sign and a magnitude
  `significand · 2 ^ exponent` in single or double precision.  Nothing here goes
  through machine arithmetic, so every operation can be reasoned about.

  `nearest` is the only place that rounds: it takes a ratio of naturals to the
  closest magnitude of a format, a tie to the even significand.  The significand is
  kept below `2 ^ precision`, and at least half of that unless the exponent is the
  least one, so each number has one representation.
-/
import QueryLoom.Number.Power

namespace QueryLoom.Number

/-- The two widths of floating-point numbers. -/
inductive BinaryFormat where
  | single
  | double
deriving DecidableEq, Repr

namespace BinaryFormat

/-- The number of bits of a significand. -/
def precision : BinaryFormat → Nat
  | single => 24
  | double => 53

/-- The exponent of the smallest positive number. -/
def leastExponent : BinaryFormat → Int
  | single => -149
  | double => -1074

/-- The exponent of the greatest finite number. -/
def greatestExponent : BinaryFormat → Int
  | single => 104
  | double => 971

end BinaryFormat

/-- A number without its sign. -/
inductive Magnitude where
  | finite (significand : Nat) (exponent : Int)
  | infinite
  | notANumber
deriving DecidableEq, Repr

/-- A floating-point number of the given format. -/
structure Binary (f : BinaryFormat) where
  negative : Bool
  magnitude : Magnitude
deriving DecidableEq, Repr

/-! ### Rounding -/

/-- The natural closest to `num / den`, a tie to the even one. -/
def roundHalfEven (num den : Nat) : Nat :=
  let q := num / den
  let r := num % den
  if den < 2 * r || (2 * r == den && q % 2 == 1) then q + 1 else q

/-- The ratio divided by `2 ^ e`. -/
def scaleDown (num den : Nat) (e : Int) : Nat × Nat :=
  if 0 ≤ e then (num, den * twoTo e.toNat) else (num * twoTo (-e).toNat, den)

/-- The magnitude of the format closest to `num / den`. -/
def nearest (f : BinaryFormat) (num den : Nat) : Magnitude :=
  if num = 0 then .finite 0 f.leastExponent
  else
    let low := max ((num.log2 : Int) - den.log2 - f.precision) f.leastExponent
    let (n, d) := scaleDown num den low
    let e := if twoTo f.precision ≤ n / d then low + 1 else low
    let (n, d) := scaleDown num den e
    let m := roundHalfEven n d
    let (m, e) := if m = twoTo f.precision then (m / 2, e + 1) else (m, e)
    if f.greatestExponent < e then .infinite else .finite m e

namespace Binary

variable {f : BinaryFormat}

/-- The number of the format closest to a ratio. -/
def ofRatio (f : BinaryFormat) (negative : Bool) (num den : Nat) : Binary f :=
  ⟨negative, nearest f num den⟩

/-- The number of the format closest to `m · 2 ^ e`. -/
def ofScaled (f : BinaryFormat) (negative : Bool) (m : Nat) (e : Int) : Binary f :=
  if 0 ≤ e then ofRatio f negative (m * twoTo e.toNat) 1
  else ofRatio f negative m (twoTo (-e).toNat)

/-- Zero with the given sign. -/
def zero (f : BinaryFormat) (negative : Bool) : Binary f :=
  ⟨negative, .finite 0 f.leastExponent⟩

/-- The number of the format closest to `digits · 10 ^ exponent`. -/
def ofDecimal (f : BinaryFormat) (negative : Bool) (digits : Nat) (exponent : Int) : Binary f :=
  let size := (Nat.toDigits 10 digits).length + exponent
  if digits = 0 || size < -400 then zero f negative
  else if 400 < size then ⟨negative, .infinite⟩
  else if 0 ≤ exponent then ofRatio f negative (digits * tenTo exponent.toNat) 1
  else ofRatio f negative digits (tenTo (-exponent).toNat)

/-- The same number in another format, rounded where the format is narrower. -/
def convert (g : BinaryFormat) (x : Binary f) : Binary g :=
  match x.magnitude with
  | .finite m e => ofScaled g x.negative m e
  | m => ⟨x.negative, m⟩

/-! ### Tests and arithmetic -/

/-- Neither infinite nor without a value. -/
def isFinite (x : Binary f) : Bool :=
  match x.magnitude with
  | .finite .. => true
  | _ => false

/-- Zero of either sign. -/
def isZero (x : Binary f) : Bool :=
  match x.magnitude with
  | .finite m _ => m == 0
  | _ => false

/-- Equality of values: the two zeros are equal, and what is not a number equals nothing. -/
def agrees (x y : Binary f) : Bool :=
  (x.isZero && y.isZero) || (x.magnitude != .notANumber && x == y)

/-- The closest number to the product of two finite magnitudes, nothing for others. -/
def times (x y : Binary f) : Option (Binary f) :=
  match x.magnitude, y.magnitude with
  | .finite m d, .finite n e => some (ofScaled f (x.negative != y.negative) (m * n) (d + e))
  | _, _ => none

/-- The closest number to the quotient of two finite magnitudes, nothing for others and for
    a zero divisor. -/
def quotient? (x y : Binary f) : Option (Binary f) :=
  match x.magnitude, y.magnitude with
  | .finite m d, .finite n e =>
    if n = 0 then none
    else
      let (num, den) := scaleDown m n (e - d)
      some (ofRatio f (x.negative != y.negative) num den)
  | _, _ => none

end Binary

end QueryLoom.Number
