/-
  QueryLoom/Proofs/Rendering/Stamp.lean
  =====================================
  **Dates and times are read back from their literals.**  A server has days of the years 1 to 9999
  and times of day down to a ten-thousandth of a second, without leap seconds.  `Stamp.ofTokens?`
  reads a literal of them: the word, and between quotes a date with four, two and two digits, a
  time with two, two, two and four, or both with a space between them.

    * `scanDay_write`, `scanClock_text` — a date and a time of day are read back;
    * `stamp_of_literal` — a constant is written just when the server has its day, and its literal
      stands for that day and the time cut off after four places.

  A constant in a leap second is written all the same, as second 60.  That is no time of day for
  the server, so the literal stands for nothing.
-/
import Mathlib
import QueryLoom.Proofs.Rendering.Representable
import QueryLoom.Proofs.Rendering.Separation
import QueryLoom.Proofs.Text.Digits

namespace QueryLoom.Sql

open Text Lexical
open Reading (isWord)

/-! ### What a server has -/

/-- A day that the server has. -/
structure Day where
  date : Calendar.Date
  isKnown : isYearKnown date = true

/-- A time of day that the server has, in ten-thousandths of a second. -/
structure Clock where
  hour : Nat
  minute : Nat
  second : Nat
  fraction : Nat
  hour_lt : hour < 24
  minute_lt : minute < 60
  second_lt : second < 60
  fraction_lt : fraction < 10000

/-- What a literal of a date, a time or both stands for. -/
inductive Stamp where
  | date (day : Day)
  | time (clock : Clock)
  | dateTime (day : Day) (clock : Clock)

/-! ### Reading literals -/

/-- Reads exactly this many digits. -/
def figures? (width : Nat) (cs : List Char) : Option (Nat × List Char) :=
  let ds := cs.take width
  if ds.length = width ∧ ∀ c ∈ ds, c.isDigit = true then some (natOf ds, cs.drop width) else none

/-- The day for a date, if the server has it. -/
def Day.of? (d : Calendar.Date) : Option Day :=
  if h : isYearKnown d = true then some ⟨d, h⟩ else none

/-- The day with these parts, if the server has one. -/
def Day.ofParts? (year month day : Nat) : Option Day :=
  (Calendar.Date.ofParts? year month day).bind Day.of?

/-- The time of day with these parts, if the server has one. -/
def Clock.ofParts? (hour minute second fraction : Nat) : Option Clock :=
  if h : hour < 24 ∧ minute < 60 ∧ second < 60 ∧ fraction < 10000 then
    some ⟨hour, minute, second, fraction, h.1, h.2.1, h.2.2.1, h.2.2.2⟩
  else none

/-- Reads year, month and day with hyphens between them. -/
def scanDay (cs : List Char) : Option (Day × List Char) := do
  let (year, cs) ← figures? 4 cs
  let (_, cs) ← literally '-' cs
  let (month, cs) ← figures? 2 cs
  let (_, cs) ← literally '-' cs
  let (day, cs) ← figures? 2 cs
  let found ← Day.ofParts? year month day
  return (found, cs)

/-- Reads hour, minute and second with colons between them, a point and the fraction. -/
def scanClock (cs : List Char) : Option (Clock × List Char) := do
  let (hour, cs) ← figures? 2 cs
  let (_, cs) ← literally ':' cs
  let (minute, cs) ← figures? 2 cs
  let (_, cs) ← literally ':' cs
  let (second, cs) ← figures? 2 cs
  let (_, cs) ← literally '.' cs
  let (fraction, cs) ← figures? 4 cs
  let found ← Clock.ofParts? hour minute second fraction
  return (found, cs)

/-- Reads a day, a space and a time of day. -/
def scanBoth (cs : List Char) : Option ((Day × Clock) × List Char) := do
  let (day, cs) ← scanDay cs
  let (_, cs) ← literally ' ' cs
  let (clock, cs) ← scanClock cs
  return ((day, clock), cs)

/-- What was read, if nothing is left. -/
def complete? {α : Type} : Option (α × List Char) → Option α
  | some (a, []) => some a
  | _ => none

/-- What the tokens of a literal stand for. -/
def Stamp.ofTokens? : List Token → Option Stamp
  | [.word "DATE", .string text] => (complete? (scanDay text.toList)).map .date
  | [.word "TIME", .string text] => (complete? (scanClock text.toList)).map .time
  | [.word "TIMESTAMP", .string text] =>
    (complete? (scanBoth text.toList)).map fun (day, clock) => .dateTime day clock
  | _ => none

/-! ### What constants are to be -/

/-- Whether a time is in a leap second. -/
def isLeap (t : Calendar.Time) : Bool := Calendar.nanosPerSecond ≤ t.nanos

theorem isLeap_iff {t : Calendar.Time} : isLeap t = true ↔ 1000000000 ≤ t.nanos :=
  decide_eq_true_iff

/-- Only the last second of a minute may be a leap second. -/
theorem second_of_isLeap {t : Calendar.Time} (h : isLeap t = true) : t.second = 59 := by
  have hnanos := t.nanos_lt
  by_contra hsecond
  rw [if_neg hsecond] at hnanos
  exact Nat.not_le_of_lt hnanos (isLeap_iff.mp h)

/-- The time of day for a time: cut off after four places, and the last moment of the minute in
    place of its leap second. -/
def Clock.of (t : Calendar.Time) : Clock where
  hour := t.hour
  minute := t.minute
  second := t.second
  fraction := if isLeap t then 9999 else t.nanos / 100000
  hour_lt := t.hour_lt
  minute_lt := t.minute_lt
  second_lt := t.second_lt
  fraction_lt := by
    split
    · decide
    · rename_i h
      rw [isLeap_iff] at h
      omega

/-- What a constant of a date, a time or both is to be, if the server has its day. -/
def Stamp.of? : Value → Option Stamp
  | .date d => (Day.of? d).map .date
  | .time t => some (.time (.of t))
  | .dateTime dt => (Day.of? dt.date).map fun day => .dateTime day (.of dt.time)
  | _ => none

/-- Whether the time of a constant is in a leap second. -/
def inLeap : Value → Bool
  | .time t => isLeap t
  | .dateTime dt => isLeap dt.time
  | _ => false

/-- Whether a constant is a date, a time or both. -/
def isTemporal : Value → Bool
  | .date _ | .time _ | .dateTime _ => true
  | _ => false

/-! ### Reading back -/

variable {width n : Nat} {rest : List Char}

theorem figures?_padded (hwidth : 0 < width) (hn : n < 10 ^ width) :
    figures? width ((padded width n).toList ++ rest) = some (n, rest) := by
  have hlength := length_padded hwidth hn
  have htake : ((padded width n).toList ++ rest).take width = (padded width n).toList :=
    List.take_left' hlength
  have hdigits : ∀ c ∈ (padded width n).toList, c.isDigit = true := fun _ => isDigit_of_mem_padded
  rw [figures?, htake, if_pos ⟨hlength, hdigits⟩, natOf_padded, List.drop_left' hlength]

theorem literally_cons (c : Char) (cs : List Char) : literally c (c :: cs) = some ((), cs) :=
  if_pos rfl

theorem year_bounds {d : Calendar.Date} (h : isYearKnown d = true) :
    1 ≤ d.year ∧ d.year ≤ 9999 := by
  simpa [isYearKnown] using h

theorem Day.of?_eq {d : Calendar.Date} (h : isYearKnown d = true) : Day.of? d = some ⟨d, h⟩ :=
  dif_pos h

theorem Day.ofParts?_date {d : Calendar.Date} (h : isYearKnown d = true) :
    Day.ofParts? d.year.toNat d.month d.day = some ⟨d, h⟩ := by
  obtain ⟨hlow, hhigh⟩ := year_bounds h
  have hyear : (d.year.toNat : Int) = d.year := Int.toNat_of_nonneg (by omega)
  have hcovered : (-262143 ≤ d.year && d.year ≤ 262142) = true := by simp; omega
  have hdate : Calendar.Date.ofParts? d.year d.month d.day = some d := by
    rw [Calendar.Date.ofParts?, dif_pos ⟨d.day_pos, d.day_le⟩, if_pos hcovered]
  rw [Day.ofParts?, hyear, hdate]
  exact Day.of?_eq h

theorem toList_write_of_isYearKnown {d : Calendar.Date} (h : isYearKnown d = true) :
    d.write.toList = (padded 4 d.year.toNat).toList ++
      '-' :: ((padded 2 d.month).toList ++ '-' :: (padded 2 d.day).toList) := by
  obtain ⟨hlow, hhigh⟩ := year_bounds h
  have hyear : (0 ≤ d.year && d.year ≤ 9999) = true := by simp; omega
  rw [Calendar.Date.write, if_pos hyear]
  simp [String.toList_append]

/-- A date of the years that the server has is read back. -/
theorem scanDay_write {d : Calendar.Date} (h : isYearKnown d = true) :
    scanDay (d.write.toList ++ rest) = some (⟨d, h⟩, rest) := by
  obtain ⟨hlow, hhigh⟩ := year_bounds h
  have hyear : d.year.toNat < 10 ^ 4 := by omega
  have hmonth : d.month < 10 ^ 2 := by have := d.month_bounds; omega
  have hday : d.day < 10 ^ 2 := by have := d.day_bounds; omega
  simp only [toList_write_of_isYearKnown h, List.append_assoc, List.cons_append, scanDay,
    Option.bind_eq_bind, figures?_padded (by decide : 0 < 4) hyear, Option.bind_some,
    literally_cons, figures?_padded (by decide : 0 < 2) hmonth,
    figures?_padded (by decide : 0 < 2) hday, Day.ofParts?_date h]
  rfl

/-- The text of a time is read as its parts, if the server has such a time of day. -/
theorem scanClock_text {hour minute second fraction : Nat} (hhour : hour < 10 ^ 2)
    (hminute : minute < 10 ^ 2) (hsecond : second < 10 ^ 2) (hfraction : fraction < 10 ^ 4) :
    scanClock ((padded 2 hour ++ ":" ++ padded 2 minute ++ ":" ++ padded 2 second ++ "." ++
      padded 4 fraction).toList ++ rest) =
      (Clock.ofParts? hour minute second fraction).map (·, rest) := by
  have htext : (padded 2 hour ++ ":" ++ padded 2 minute ++ ":" ++ padded 2 second ++ "." ++
      padded 4 fraction).toList ++ rest = (padded 2 hour).toList ++ ':' ::
        ((padded 2 minute).toList ++ ':' :: ((padded 2 second).toList ++ '.' ::
          ((padded 4 fraction).toList ++ rest))) := by
    simp [String.toList_append]
  simp only [htext, scanClock, Option.bind_eq_bind, Option.bind_some, literally_cons,
    figures?_padded (by decide : 0 < 2) hhour, figures?_padded (by decide : 0 < 2) hminute,
    figures?_padded (by decide : 0 < 2) hsecond, figures?_padded (by decide : 0 < 4) hfraction]
  cases Clock.ofParts? hour minute second fraction <;> rfl

theorem clockSecond_eq (t : Calendar.Time) :
    t.clockSecond = if isLeap t then 60 else t.second := by
  have hnanos := t.nanos_lt
  rw [Calendar.Time.clockSecond]
  split
  · rename_i h
    have hsecond := second_of_isLeap h
    rw [if_pos hsecond, Calendar.nanosPerSecond] at hnanos
    rw [isLeap_iff] at h
    rw [hsecond, Calendar.nanosPerSecond]
    omega
  · rename_i h
    rw [isLeap_iff] at h
    rw [Calendar.nanosPerSecond]
    omega

theorem fraction_eq (t : Calendar.Time) :
    min (t.nanos / 100000) 9999 = (Clock.of t).fraction := by
  have hof : (Clock.of t).fraction = if isLeap t then 9999 else t.nanos / 100000 := rfl
  rw [hof]
  split
  · rename_i h
    rw [isLeap_iff] at h
    omega
  · rename_i h
    rw [isLeap_iff] at h
    omega

/-- A time is read back, cut off after four places.  One in a leap second is not. -/
theorem scanClock_timeText (t : Calendar.Time) : scanClock ((timeText t).toList ++ rest) =
    if isLeap t then none else some (.of t, rest) := by
  have hhour : t.hour < 10 ^ 2 := by have := t.hour_lt; omega
  have hminute : t.minute < 10 ^ 2 := by have := t.minute_lt; omega
  have hfraction : (Clock.of t).fraction < 10 ^ 4 := (Clock.of t).fraction_lt
  have hsecond : t.clockSecond < 10 ^ 2 := by
    have := t.second_lt
    rw [clockSecond_eq]
    split <;> omega
  rw [timeText, Calendar.Time.clock, fraction_eq, scanClock_text hhour hminute hsecond hfraction,
    clockSecond_eq]
  split
  · have hnone : Clock.ofParts? t.hour t.minute 60 (Clock.of t).fraction = none :=
      dif_neg (by omega)
    rw [hnone]
    rfl
  · have hsome : Clock.ofParts? t.hour t.minute t.second (Clock.of t).fraction = some (.of t) :=
      dif_pos ⟨t.hour_lt, t.minute_lt, t.second_lt, hfraction⟩
    rw [hsome]
    rfl

/-- In a leap second a clock shows second 60. -/
theorem timeText_of_isLeap {t : Calendar.Time} (h : isLeap t = true) :
    ∃ front, timeText t = front ++ ":60.9999" := by
  refine ⟨padded 2 t.hour ++ ":" ++ padded 2 t.minute, ?_⟩
  have hfraction : (Clock.of t).fraction = 9999 := if_pos h
  have hsecond : padded 2 60 = "60" := by decide
  have hplaces : padded 4 9999 = "9999" := by decide
  rw [timeText, Calendar.Time.clock, clockSecond_eq, if_pos h, fraction_eq, hfraction, hsecond,
    hplaces]
  simp only [String.append_assoc]
  rfl

/-! ### Literals of constants -/

/-- A literal is a word and a string that stands for what the constant is to be. -/
structure Stamps (v : Value) (w s : String) (x : Stamp) : Prop where
  word : isWord w = true
  stamp : Stamp.of? v = some x
  reads : Stamp.ofTokens? [.word w, .string s] = if inLeap v then none else some x
  leap : inLeap v = true → ∃ front, s = front ++ ":60.9999"

theorem complete?_of_scan {α : Type} {scan : List Char → Option (α × List Char)} {a? : Option α}
    {cs : List Char} (h : scan (cs ++ []) = a?.map (·, [])) : complete? (scan cs) = a? := by
  rw [List.append_nil] at h
  rw [h]
  cases a? <;> rfl

theorem stamps_date {d : Calendar.Date} (h : isYearKnown d = true) :
    Stamps (.date d) "DATE" d.write (.date ⟨d, h⟩) where
  word := by decide
  stamp := by rw [Stamp.of?, Day.of?_eq h]; rfl
  reads := by
    have hday : complete? (scanDay d.write.toList) = some ⟨d, h⟩ :=
      complete?_of_scan (scanDay_write h)
    rw [Stamp.ofTokens?, hday]
    rfl
  leap := by rintro ⟨⟩

theorem stamps_time (t : Calendar.Time) :
    Stamps (.time t) "TIME" (timeText t) (.time (.of t)) where
  word := by decide
  stamp := rfl
  reads := by
    have hclock : complete? (scanClock (timeText t).toList) =
        if isLeap t then none else some (.of t) := by
      refine complete?_of_scan ?_
      rw [scanClock_timeText]
      split <;> rfl
    rw [Stamp.ofTokens?, hclock, inLeap]
    split <;> rfl
  leap := timeText_of_isLeap

theorem stamps_dateTime {dt : Calendar.DateTime} (h : isYearKnown dt.date = true) :
    Stamps (.dateTime dt) "TIMESTAMP" (dt.date.write ++ " " ++ timeText dt.time)
      (.dateTime ⟨dt.date, h⟩ (.of dt.time)) where
  word := by decide
  stamp := by rw [Stamp.of?, Day.of?_eq h]; rfl
  reads := by
    have hboth : complete? (scanBoth (dt.date.write ++ " " ++ timeText dt.time).toList) =
        if isLeap dt.time then none else some (⟨dt.date, h⟩, .of dt.time) := by
      have htext : (dt.date.write ++ " " ++ timeText dt.time).toList ++ [] =
          dt.date.write.toList ++ ' ' :: ((timeText dt.time).toList ++ []) := by
        simp [String.toList_append]
      refine complete?_of_scan ?_
      simp only [htext, scanBoth, Option.bind_eq_bind, scanDay_write h, Option.bind_some,
        literally_cons, scanClock_timeText]
      split <;> rfl
    rw [Stamp.ofTokens?, hboth, inLeap]
    split <;> rfl
  leap := fun hleap => by
    obtain ⟨front, hfront⟩ := timeText_of_isLeap hleap
    exact ⟨dt.date.write ++ " " ++ front, by simp only [hfront, String.append_assoc]⟩

/-- A constant has a literal just when the server has its day. -/
theorem literal_cases (caps : Capabilities) {v : Value} (hv : isTemporal v = true) :
    (Stamp.of? v = none ∧ ∃ e, literal caps v = [.refused e]) ∨
      ∃ w s x, Stamps v w s x ∧ literal caps v = labelled w s := by
  cases v with
  | date d =>
    by_cases h : isYearKnown d = true
    · have htext : dateText? d = .ok d.write := if_pos h
      exact .inr ⟨_, _, _, stamps_date h, by rw [literal, htext]; rfl⟩
    · have htext : dateText? d = .error (.yearOutOfRange d) := if_neg h
      exact .inl ⟨by rw [Stamp.of?, Day.of?, dif_neg h]; rfl, _, by rw [literal, htext]; rfl⟩
  | time t => exact .inr ⟨_, _, _, stamps_time t, rfl⟩
  | dateTime dt =>
    by_cases h : isYearKnown dt.date = true
    · have htext : dateText? dt.date = .ok dt.date.write := if_pos h
      exact .inr ⟨_, _, _, stamps_dateTime h, by rw [literal, htext]; rfl⟩
    · have htext : dateText? dt.date = .error (.yearOutOfRange dt.date) := if_neg h
      exact .inl ⟨by rw [Stamp.of?, Day.of?, dif_neg h]; rfl, _, by rw [literal, htext]; rfl⟩
  | _ => cases hv

/-- A word and a string are lexed as such. -/
theorem tokens_labelled (caps : Capabilities) {w : String} (hw : isWord w = true) (s : String) :
    tokens (w ++ (" " ++ (quoted '\'' s ++ ""))) = [.word w, .string s] := by
  let style : Style := ⟨caps, .positional, []⟩
  have hwrite : style.write [] (labelled w s) =
      (.ok (w ++ (" " ++ (quoted '\'' s ++ ""))), []) := rfl
  have hreadable : ∀ p ∈ labelled w s, p.isReadable = true := by
    simp [labelled, Piece.isReadable, hw]
  rw [tokens, Style.spelled_of_write hwrite (.inl rfl),
    lex_spelled rfl hreadable (tidy_labelled hw).apart]
  rfl

/-- A date, a time or both is written just when the server has its day, and binds nothing.  Its
    literal stands for the day and for the time cut off after four places, except in a leap
    second, which is written as second 60 and stands for nothing. -/
theorem stamp_of_literal (style : Style) (bound : List Binding) {v : Value}
    (hv : isTemporal v = true) :
    ((∃ text bound', style.write bound (literal style.caps v) = (.ok text, bound')) ↔
      ∃ x, Stamp.of? v = some x) ∧
    ∀ text bound', style.write bound (literal style.caps v) = (.ok text, bound') →
      bound' = bound ∧
      (inLeap v = false → Stamp.ofTokens? (tokens text) = Stamp.of? v) ∧
      (inLeap v = true → Stamp.ofTokens? (tokens text) = none ∧
        ∃ w front, tokens text = [.word w, .string (front ++ ":60.9999")]) := by
  rcases literal_cases style.caps hv with ⟨hnone, e, hliteral⟩ | ⟨w, s, x, hstamps, hliteral⟩
  · rw [hliteral]
    have hrefused : ∀ text bound', style.write bound [.refused e] ≠ (.ok text, bound') := by
      rintro text bound' ⟨⟩
    refine ⟨iff_of_false ?_ (by simp [hnone]), fun text bound' h => absurd h (hrefused _ _)⟩
    rintro ⟨text, bound', h⟩
    exact hrefused _ _ h
  · rw [hliteral]
    have hwrite : style.write bound (labelled w s) =
        (.ok (w ++ (" " ++ (quoted '\'' s ++ ""))), bound) := rfl
    refine ⟨iff_of_true ⟨_, _, hwrite⟩ ⟨x, hstamps.stamp⟩, ?_⟩
    intro text bound' h
    obtain ⟨⟨⟩, rfl⟩ := Prod.mk.inj (hwrite.symm.trans h)
    have htokens := tokens_labelled style.caps hstamps.word s
    refine ⟨rfl, fun hleap => ?_, fun hleap => ?_⟩
    · rw [htokens, hstamps.reads, hleap, hstamps.stamp]
      rfl
    · obtain ⟨front, rfl⟩ := hstamps.leap hleap
      rw [htokens, hstamps.reads, hleap]
      exact ⟨rfl, w, front, rfl⟩

/-- The fourth of March 2022, shortly after five. -/
def morning : Calendar.DateTime :=
  ⟨⟨2022, 3, 4, by decide, by decide⟩,
    ⟨5, 6, 7, 890123456, by decide, by decide, by decide, by decide⟩⟩

theorem stamp_of_literal_morning :
    isTemporal (.dateTime morning) = true ∧
    Stamp.ofTokens? (tokens "TIMESTAMP '2022-03-04 05:06:07.8901'") =
      some (.dateTime ⟨morning.date, by decide⟩
        ⟨5, 6, 7, 8901, by decide, by decide, by decide, by decide⟩) := by
  have hwrite : (⟨.ofVersion ⟨3, 0, 0, 0⟩, .positional, []⟩ : Style).write []
      (literal (.ofVersion ⟨3, 0, 0, 0⟩) (.dateTime morning)) =
        (.ok "TIMESTAMP '2022-03-04 05:06:07.8901'", []) := by decide +kernel
  have hmorning : isTemporal (.dateTime morning) = true := rfl
  obtain ⟨-, hreads, -⟩ := (stamp_of_literal _ [] hmorning).2 _ _ hwrite
  exact ⟨hmorning, hreads (by decide)⟩

/-- The leap second at the end of a day. -/
def lastSecond : Calendar.Time :=
  ⟨23, 59, 59, 1000000000, by decide, by decide, by decide, by decide⟩

/-- The literal of a leap second is not one of the last moment before midnight: it has a second 60
    and stands for nothing. -/
theorem stamp_ne_of_lastSecond :
    Calendar.Time.ofString? "23:59:60" = some lastSecond ∧
    (⟨.ofVersion ⟨3, 0, 0, 0⟩, .positional, []⟩ : Style).write []
      (literal (.ofVersion ⟨3, 0, 0, 0⟩) (.time lastSecond)) = (.ok "TIME '23:59:60.9999'", []) ∧
    Stamp.of? (.time lastSecond) =
      some (.time ⟨23, 59, 59, 9999, by decide, by decide, by decide, by decide⟩) ∧
    Stamp.ofTokens? (tokens "TIME '23:59:60.9999'") = none := by
  have htext : timeText lastSecond = "23:59:60.9999" := by decide +kernel
  have htokens : tokens ("TIME" ++ (" " ++ (quoted '\'' "23:59:60.9999" ++ ""))) =
      [.word "TIME", .string "23:59:60.9999"] :=
    tokens_labelled (.ofVersion ⟨3, 0, 0, 0⟩) (by decide) _
  have hliteral : "TIME '23:59:60.9999'" =
      "TIME" ++ (" " ++ (quoted '\'' "23:59:60.9999" ++ "")) := by
    decide +kernel
  have hreads := (stamps_time lastSecond).reads
  refine ⟨by decide +kernel, by decide +kernel, rfl, ?_⟩
  rw [hliteral, htokens, ← htext, hreads]
  rfl

end QueryLoom.Sql
