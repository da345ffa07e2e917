/-
  QueryLoom/Number/Decimal.lean
  =============================
  **Decimal numbers of 96 bits**: a sign, a mantissa below `2 ^ 96` and a scale of up to
  28 digits after the point.  Trailing zeros of the fraction are part of a number, so
  `1.50` is written as it was read, but equality compares values.

  A text is read digit by digit.  A fraction that does not fit is cut at the first
  digit that has no room, which rounds the digit before it, half up; an integer part
  that does not fit is refused.  An exponent moves the point, and digits that it moves
  beyond the last place are rounded in the same way.
-/
import QueryLoom.Number.Power
import QueryLoom.Text.Scan

namespace QueryLoom.Number

/-- One more than the greatest mantissa. -/
def mantissaLimit : Nat := twoTo 96

/-- The greatest number of digits after the point. -/
def maxScale : Nat := 28

/-- The decimal `± mantissa / 10 ^ scale`.  A zero that was read as such has no sign, but one
    that a small number was rounded to keeps it. -/
structure Decimal where
  negative : Bool
  mantissa : Nat
  scale : Nat
deriving DecidableEq, Repr

namespace Decimal

open Text

/-- A mantissa and a scale with a sign, which zero drops. -/
def ofParts (negative : Bool) (mantissa scale : Nat) : Decimal :=
  ⟨negative && mantissa != 0, mantissa, scale⟩

/-! ### Reading -/

/-- Rounds at the characters that have no room.  They are digits and separators, and the first
    digit among them decides. -/
def roundAt (mantissa scale : Nat) (cs : List Char) : Option (Nat × Nat) :=
  if !cs.all fun c => c.isDigit || c = '_' then none
  else if !(cs.find? Char.isDigit).any fun c => 5 ≤ digitValue c then some (mantissa, scale)
  else if mantissa + 1 < mantissaLimit then some (mantissa + 1, scale)
  else if scale = 0 then none
  else some ((mantissa + 5) / 10, scale - 1)

/-- Reads the digits of a number.  `point` says that the point has been passed and `seen`
    that there was a digit. -/
def readDigits (point seen : Bool) (mantissa scale : Nat) : List Char → Option (Nat × Nat)
  | [] => if seen then some (mantissa, scale) else none
  | c :: rest =>
    if point && maxScale ≤ scale then roundAt mantissa scale (c :: rest)
    else if c.isDigit then
      let next := mantissa * 10 + digitValue c
      if next < mantissaLimit then readDigits point true next (if point then scale + 1 else 0) rest
      else if point then roundAt mantissa scale (c :: rest)
      else none
    else if c = '.' && !point then readDigits true seen mantissa scale rest
    else if c = '_' && seen then readDigits point seen mantissa scale rest
    else none

/-- Reads an optional sign, and digits with at most one point among them. -/
def ofPlain? (cs : List Char) : Option Decimal :=
  let (negative, ds) := match cs with
    | '-' :: rest => (true, rest)
    | '+' :: rest => (false, rest)
    | rest => (false, rest)
  (readDigits false false 0 0 ds).map fun (m, s) => ofParts negative m s

/-- The number an exponent stands for: an optional plus and digits, below `2 ^ 32`. -/
def exponent? (cs : List Char) : Option Nat :=
  let ds := match cs with
    | '+' :: rest => rest
    | rest => rest
  if ds.isEmpty || !ds.all Char.isDigit || twoTo 32 ≤ natOf ds then none else some (natOf ds)

/-- The number with its point moved left.  Digits beyond the last place are rounded away, half
    up. -/
def shiftLeft (x : Decimal) (n : Nat) : Option Decimal :=
  if maxScale < n then none
  else
    let lost := tenTo (x.scale + n - maxScale)
    some { x with
      mantissa := (2 * x.mantissa + lost) / (2 * lost)
      scale := min (x.scale + n) maxScale }

/-- The number with its point moved right. -/
def shiftRight (x : Decimal) (n : Nat) : Option Decimal :=
  if n ≤ x.scale then some { x with scale := x.scale - n }
  else if maxScale < n then none
  else
    let m := x.mantissa * tenTo (n - x.scale)
    if m < mantissaLimit then some { x with mantissa := m, scale := 0 } else none

/-- Reads a number with an exponent after an `e` of either case. -/
def ofExponential? (cs : List Char) : Option Decimal :=
  match cs.span fun c => c != 'e' && c != 'E' with
  | (_, []) => none
  | (base, _ :: exponent) =>
    match ofPlain? base, exponent with
    | none, _ => none
    | some x, '-' :: digits => (exponent? digits).bind x.shiftLeft
    | some x, digits => (exponent? digits).bind x.shiftRight

/-- Reads a decimal in plain or in exponential notation. -/
def ofString? (s : String) : Option Decimal :=
  (ofPlain? s.toList).orElse fun _ => ofExponential? s.toList

/-! ### Writing and comparing -/

/-- The decimal with exactly `scale` digits after the point. -/
def write (x : Decimal) : String :=
  let sign := if x.negative then "-" else ""
  let ds := Nat.toDigits 10 x.mantissa
  let ds := List.replicate (x.scale + 1 - ds.length) '0' ++ ds
  let whole := ds.take (ds.length - x.scale)
  let rest := ds.drop (ds.length - x.scale)
  sign ++ String.ofList whole ++ if x.scale = 0 then "" else "." ++ String.ofList rest

/-- Equality of values. -/
def agrees (x y : Decimal) : Bool :=
  x.mantissa * tenTo y.scale == y.mantissa * tenTo x.scale
    && (x.negative == y.negative || x.mantissa == 0)

end Decimal

end QueryLoom.Number
