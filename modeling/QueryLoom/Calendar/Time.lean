/-
  QueryLoom/Calendar/Time.lean
  ============================
  **Times of day** with nanoseconds, and a date with a time.  A leap second is the last
  second of its minute with the nanoseconds counted on past a thousand million, so
  `23:59:60.5` is second 59 and 1 500 000 000 nanoseconds.
-/
import QueryLoom.Calendar.Date
import QueryLoom.Number.Power

namespace QueryLoom.Calendar

open Text

/-- The nanoseconds of a second. -/
def nanosPerSecond : Nat := 1000000000

/-- A time of day.  Only second 59 may be a leap second. -/
structure Time where
  hour : Nat
  minute : Nat
  second : Nat
  nanos : Nat
  hour_lt : hour < 24
  minute_lt : minute < 60
  second_lt : second < 60
  nanos_lt : nanos < if second = 59 then 2 * nanosPerSecond else nanosPerSecond
deriving DecidableEq

/-- The time with these parts, if there is one. -/
def Time.ofParts? (hour minute second nanos : Nat) : Option Time :=
  if h : hour < 24 ∧ minute < 60 ∧ second < 60 ∧
      nanos < if second = 59 then 2 * nanosPerSecond else nanosPerSecond then
    some ⟨hour, minute, second, nanos, h.1, h.2.1, h.2.2.1, h.2.2.2⟩
  else none

/-- A date and a time of that day. -/
structure DateTime where
  date : Date
  time : Time
deriving DecidableEq

/-! ### Reading -/

/-- A fraction of a second after a point: up to nine digits count. -/
def scanFraction (cs : List Char) : Option (Nat × List Char) :=
  match cs with
  | '.' :: cs =>
    let ds := (cs.take 9).takeWhile Char.isDigit
    if ds.isEmpty then none
    else some (natOf ds * Number.tenTo (9 - ds.length), (cs.drop ds.length).dropWhile Char.isDigit)
  | cs => some (0, cs)

/-- Reads hour and minute with a colon between them. -/
def scanMinute (cs : List Char) : Option ((Nat × Nat) × List Char) := do
  let (hour, cs) ← number 2 (dropBlank cs)
  let (_, cs) ← literally ':' (dropBlank cs)
  let (minute, cs) ← number 2 (dropBlank cs)
  return ((hour, minute), cs)

/-- Reads a colon, the seconds and their fraction.  Second 60 is a leap second. -/
def scanSecond (cs : List Char) : Option ((Nat × Nat) × List Char) := do
  let (_, cs) ← literally ':' (dropBlank cs)
  let (second, cs) ← number 2 (dropBlank cs)
  let (nanos, cs) ← scanFraction cs
  let parts := if second = 60 then (59, nanosPerSecond + nanos) else (second, nanos)
  return (parts, dropBlank cs)

/-- Reads a time and nothing after it.  The seconds may be left out. -/
def Time.ofString? (s : String) : Option Time := do
  let ((hour, minute), cs) ← scanMinute s.toList
  let ((second, nanos), cs) := (scanSecond cs).getD ((0, 0), cs)
  if (dropBlank cs).isEmpty then Time.ofParts? hour minute second nanos else none

/-- Reads a date, the letter `T`, a time with its seconds, and nothing after it. -/
def DateTime.ofString? (s : String) : Option DateTime := do
  let (date, cs) ← scanDate s.toList
  let (_, cs) ← literally 'T' cs
  let ((hour, minute), cs) ← scanMinute cs
  let ((second, nanos), cs) ← scanSecond cs
  let time ← Time.ofParts? hour minute second nanos
  if cs.isEmpty then some ⟨date, time⟩ else none

/-! ### Writing -/

/-- The second as a clock shows it: 60 in a leap second. -/
def Time.clockSecond (t : Time) : Nat := t.second + t.nanos / nanosPerSecond

/-- Hours, minutes and seconds, each with two digits. -/
def Time.clock (t : Time) : String :=
  padded 2 t.hour ++ ":" ++ padded 2 t.minute ++ ":" ++ padded 2 t.clockSecond

/-- The time with no fraction or three, six or nine digits of it: the fewest that are exact. -/
def Time.write (t : Time) : String :=
  let n := t.nanos % nanosPerSecond
  t.clock ++
    if n = 0 then ""
    else if n % 1000000 = 0 then "." ++ padded 3 (n / 1000000)
    else if n % 1000 = 0 then "." ++ padded 6 (n / 1000)
    else "." ++ padded 9 n

/-- Date and time with the letter `T` between them. -/
def DateTime.write (x : DateTime) : String := x.date.write ++ "T" ++ x.time.write

end QueryLoom.Calendar
