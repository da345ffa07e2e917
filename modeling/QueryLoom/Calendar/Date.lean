/-
  QueryLoom/Calendar/Date.lean
  ============================
  **Dates of the proleptic Gregorian calendar.**  A `Date` is a real day: its month
  and day are valid for its year by construction.  The years reach from −262143 to
  262142, which is checked where a date is read.
-/
import QueryLoom.Text.Scan

namespace QueryLoom.Calendar

open Text

/-! ### The calendar -/

/-- A year with a 29th of February. -/
def isLeapYear (year : Int) : Bool :=
  year % 4 == 0 && (year % 100 != 0 || year % 400 == 0)

/-- The number of days of a month, zero for a month that does not exist. -/
def daysIn (year : Int) (month : Nat) : Nat :=
  if month < 1 ∨ 12 < month then 0
  else if month = 2 then if isLeapYear year then 29 else 28
  else if month = 4 ∨ month = 6 ∨ month = 9 ∨ month = 11 then 30
  else 31

/-- A day of the calendar. -/
structure Date where
  year : Int
  month : Nat
  day : Nat
  day_pos : 0 < day
  day_le : day ≤ daysIn year month
deriving DecidableEq

/-- The day with these parts, if there is one within the years covered. -/
def Date.ofParts? (year : Int) (month day : Nat) : Option Date :=
  if h : 0 < day ∧ day ≤ daysIn year month then
    if -262143 ≤ year && year ≤ 262142 then some ⟨year, month, day, h.1, h.2⟩ else none
  else none

/-- A month that has days is one of the twelve. -/
theorem month_bounds_of_daysIn_pos {year : Int} {month : Nat} (h : 0 < daysIn year month) :
    1 ≤ month ∧ month ≤ 12 := by
  by_cases hm : month < 1 ∨ 12 < month
  · rw [daysIn, if_pos hm] at h
    exact absurd h (Nat.lt_irrefl 0)
  · omega

theorem Date.month_bounds (d : Date) : 1 ≤ d.month ∧ d.month ≤ 12 :=
  month_bounds_of_daysIn_pos (Nat.lt_of_lt_of_le d.day_pos d.day_le)

theorem daysIn_le (year : Int) (month : Nat) : daysIn year month ≤ 31 := by
  unfold daysIn
  repeat' split
  all_goals decide

theorem Date.day_bounds (d : Date) : 1 ≤ d.day ∧ d.day ≤ 31 :=
  ⟨d.day_pos, Nat.le_trans d.day_le (daysIn_le ..)⟩

/-! ### Reading -/

/-- A year: any number of digits after a sign, up to four without one. -/
def scanYear (cs : List Char) : Option (Int × List Char) :=
  match dropBlank cs with
  | '-' :: rest => (number rest.length rest).map fun (n, rest) => (-(n : Int), rest)
  | '+' :: rest => (number rest.length rest).map fun (n, rest) => ((n : Int), rest)
  | rest => (number 4 rest).map fun (n, rest) => ((n : Int), rest)

/-- Reads year, month and day with hyphens between them.  Blanks may stand around each. -/
def scanDate (cs : List Char) : Option (Date × List Char) := do
  let (year, cs) ← scanYear cs
  let (_, cs) ← literally '-' (dropBlank cs)
  let (month, cs) ← number 2 (dropBlank cs)
  let (_, cs) ← literally '-' (dropBlank cs)
  let (day, cs) ← number 2 (dropBlank cs)
  let date ← Date.ofParts? year month day
  return (date, dropBlank cs)

/-- Reads a date and nothing after it. -/
def Date.ofString? (s : String) : Option Date :=
  match scanDate s.toList with
  | some (date, []) => some date
  | _ => none

/-! ### Writing -/

/-- The date as year, month and day.  A year outside 0 to 9999 carries its sign. -/
def Date.write (d : Date) : String :=
  let year :=
    if 0 ≤ d.year && d.year ≤ 9999 then padded 4 d.year.toNat
    else (if d.year < 0 then "-" else "+") ++ padded 4 d.year.natAbs
  year ++ "-" ++ padded 2 d.month ++ "-" ++ padded 2 d.day

end QueryLoom.Calendar
