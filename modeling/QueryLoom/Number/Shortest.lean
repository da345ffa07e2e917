/-
  QueryLoom/Number/Shortest.lean
  ==============================
  **The shortest decimal that reads back.**  A floating-point number stands for the
  whole interval of reals that round to it.  `shortest` finds the decimal with the
  fewest digits in that interval, and of those the one closest to the number, a tie
  going to the even digit.

  It tries grids of one digit, two digits and so on.  On each grid only the two
  neighbours of the number matter: if any point of a grid lies in the interval, one
  of them does.  Seventeen digits are enough for a double.
-/
import QueryLoom.Number.Binary

namespace QueryLoom.Number

/-- The decimal `digits · 10 ^ exponent`. -/
structure Scientific where
  digits : Nat
  exponent : Int
deriving DecidableEq, Repr

/-- The reals that round to a number, in units of `2 ^ exponent`: everything between `low`
    and `high`, the ends included when `closed`. -/
structure Interval where
  low : Nat
  value : Nat
  high : Nat
  exponent : Int
  closed : Bool

/-- What rounds to `m · 2 ^ e`.  Below a power of two the numbers are twice as dense. -/
def Interval.around (f : BinaryFormat) (m : Nat) (e : Int) : Interval :=
  let below := if m = twoTo (f.precision - 1) && f.leastExponent < e then 1 else 2
  ⟨4 * m - below, 4 * m, 4 * m + 2, e - 2, m % 2 == 0⟩

/-- The quantity `n · 2 ^ e / 10 ^ k` as a ratio. -/
def inTens (n : Nat) (e k : Int) : Nat × Nat :=
  (n * twoTo e.toNat * tenTo (-k).toNat, twoTo (-e).toNat * tenTo k.toNat)

/-- Whether `d · 10 ^ k` lies in the interval. -/
def Interval.contains (i : Interval) (d : Nat) (k : Int) : Bool :=
  let (low, den) := inTens i.low i.exponent k
  let (high, _) := inTens i.high i.exponent k
  if i.closed then low ≤ d * den && d * den ≤ high else low < d * den && d * den < high

/-- The closest point of the grid `10 ^ k` that lies in the interval, if one does. -/
def Interval.onGrid (i : Interval) (k : Int) : Option Nat :=
  let (num, den) := inTens i.value i.exponent k
  let d := num / den
  match i.contains d k, i.contains (d + 1) k with
  | true, true => some (roundHalfEven num den)
  | true, false => some d
  | false, true => some (d + 1)
  | false, false => none

/-- The least `k` near the estimate with `value < 10 ^ k`. -/
def Interval.size (i : Interval) : Int :=
  let guess := ((i.value.log2 : Int) + i.exponent) * 30103 / 100000
  let fits := fun k => let (num, den) := inTens i.value i.exponent k; num < den
  ([guess - 1, guess, guess + 1].find? fits).getD (guess + 2)

/-- The decimal with the trailing zeros of its digits moved into the exponent. -/
def Scientific.strip : Nat → Scientific → Scientific
  | 0, x => x
  | fuel + 1, x =>
    if x.digits ≠ 0 ∧ x.digits % 10 = 0 then strip fuel ⟨x.digits / 10, x.exponent + 1⟩ else x

/-- The shortest decimal that rounds to the positive number `m · 2 ^ e`. -/
def shortest (f : BinaryFormat) (m : Nat) (e : Int) : Scientific :=
  let i := Interval.around f m e
  let size := i.size
  let grids := (List.range 18).map fun (n : Nat) => size - 1 - (n : Int)
  match grids.findSome? fun k => (i.onGrid k).map fun d => (⟨d, k⟩ : Scientific) with
  | some x => x.strip 20
  | none => ⟨i.value, i.exponent⟩

/-! ### Layouts -/

/-- How a floating-point number is laid out: where positional notation starts and ends, how
    an exponent is written, and the texts of what has no digits. -/
structure Layout where
  leastPositional : Int
  greatestPositional : Int
  exponentSign : Bool
  infinity : String
  notANumber : String

/-- A finite positive decimal in a layout, always with a point or an exponent. -/
def Layout.decimal (l : Layout) (x : Scientific) : String :=
  let ds := Nat.toDigits 10 x.digits
  let top := x.exponent + ds.length - 1
  if top < l.leastPositional || l.greatestPositional < top then
    let mantissa := match ds with
      | [d] => [d]
      | d :: rest => d :: '.' :: rest
      | [] => ['0']
    let sign := if l.exponentSign && 0 ≤ top then "+" else ""
    String.ofList mantissa ++ "e" ++ sign ++ toString top
  else if 0 ≤ x.exponent then
    String.ofList (ds ++ List.replicate x.exponent.toNat '0') ++ ".0"
  else if 0 ≤ top then
    let whole := (top + 1).toNat
    String.ofList (ds.take whole ++ '.' :: ds.drop whole)
  else
    "0." ++ String.ofList (List.replicate (-top - 1).toNat '0' ++ ds)

/-- A floating-point number in a layout. -/
def Binary.write {f : BinaryFormat} (l : Layout) (x : Binary f) : String :=
  let sign := if x.negative then "-" else ""
  match x.magnitude with
  | .finite m e => sign ++ if m = 0 then "0.0" else l.decimal (shortest f m e)
  | .infinite => sign ++ l.infinity
  | .notANumber => l.notANumber

/-- The layout of numbers in messages and in SQL: positional from a ten-thousandth to below
    ten to the sixteenth. -/
def plainLayout : Layout := ⟨-4, 15, false, "inf", "NaN"⟩

end QueryLoom.Number
