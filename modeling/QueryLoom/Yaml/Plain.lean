/-
  QueryLoom/Yaml/Plain.lean
  =========================
  **What a plain scalar means**: null, a Boolean, a number, or its text.

  An integer may have a sign and a base; a decimal one has no zeros in front, with which it
  is a text.  One that 64 bits do not hold is refused, unless not even 128 bits hold it:
  then it is a floating-point number.
-/
import QueryLoom.Number.Shortest
import QueryLoom.Text.Scan

namespace QueryLoom.Yaml

open Number Text

/-- What a plain scalar can mean. -/
inductive Plain where
  | null
  | bool (b : Bool)
  | integer (n : Int)
  | float (x : Binary .double)
  | text (s : String)
deriving DecidableEq

namespace Plain

/-- The words for null. -/
def isNull (s : String) : Bool := ["", "null", "Null", "NULL", "~"].contains s

/-- The words for the Booleans. -/
def bool? (s : String) : Option Bool :=
  if ["true", "True", "TRUE"].contains s then some true
  else if ["false", "False", "FALSE"].contains s then some false
  else none

/-! ### Integers -/

/-- The number of digits to a base up to sixteen. -/
def digits? (base : Nat) (cs : List Char) : Option Nat :=
  if cs.isEmpty then none
  else cs.foldlM (fun n c => do
    let d ← hexValue? c
    if d < base then some (n * base + d) else none) 0

/-- Whether there are zeros in front of other digits. -/
def hasLeadingZero (cs : List Char) : Bool :=
  cs.head? == some '0' && 1 < cs.length && cs.all Char.isDigit

/-- An integer without its sign. -/
def magnitude? (cs : List Char) : Option Nat :=
  match cs with
  | '0' :: 'x' :: ds => digits? 16 ds
  | '0' :: 'o' :: ds => digits? 8 ds
  | '0' :: 'b' :: ds => digits? 2 ds
  | ds => if hasLeadingZero ds then none else digits? 10 ds

/-- A sign in front, and what follows it. -/
def sign (cs : List Char) : Bool × List Char :=
  match cs with
  | '-' :: rest => (true, rest)
  | '+' :: rest => (false, rest)
  | rest => (false, rest)

/-- An integer of any size. -/
def integer? (cs : List Char) : Option Int :=
  let (negative, cs) := sign cs
  (magnitude? cs).map fun n => if negative then -n else n

/-- Whether an integer fits words of so many bits, unsigned or signed. -/
def fits (bits : Nat) (n : Int) : Bool := -(twoTo (bits - 1) : Int) ≤ n && n < twoTo bits

/-! ### Floating-point numbers -/

/-- An exponent after its letter. -/
def exponent? (cs : List Char) : Option Int :=
  match cs with
  | [] => some 0
  | e :: rest =>
    if e = 'e' || e = 'E' then
      let (negative, ds) := sign rest
      if ds.isEmpty || !ds.all Char.isDigit then none
      else some (if negative then -(natOf ds : Int) else natOf ds)
    else none

/-- A number in decimal notation with a point, an exponent, both or neither. -/
def decimal? (negative : Bool) (cs : List Char) : Option (Binary .double) := do
  let (whole, cs) := digitRun cs
  let (fraction, cs) := match cs with
    | '.' :: rest => digitRun rest
    | rest => ([], rest)
  if whole.isEmpty && fraction.isEmpty then none
  let e ← exponent? cs
  let x := Binary.ofDecimal .double negative (natOf (whole ++ fraction)) (e - fraction.length)
  if x.isFinite then some x else none

/-- A floating-point number. -/
def float? (cs : List Char) : Option (Binary .double) :=
  let (negative, rest) := sign cs
  let s := String.ofList rest
  if [".inf", ".Inf", ".INF"].contains s then some ⟨negative, .infinite⟩
  else if [".nan", ".NaN", ".NAN"].contains s && rest.length = cs.length then
    some ⟨false, .notANumber⟩
  else decimal? negative rest

/-! ### All together -/

/-- What a plain scalar means, or nothing for an integer that does not fit. -/
def ofText? (s : String) : Option Plain :=
  let cs := s.toList
  if isNull s then some null
  else match bool? s, integer? cs with
    | some b, _ => some (bool b)
    | none, some n =>
      if fits 64 n then some (integer n)
      else if fits 128 n then none
      else some (((float? cs).map float).getD (text s))
    | none, none =>
      if hasLeadingZero (sign cs).2 then some (text s)
      else some (((float? cs).map float).getD (text s))

end Plain

end QueryLoom.Yaml
