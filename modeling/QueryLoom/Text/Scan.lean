/-
  QueryLoom/Text/Scan.lean
  ========================
  **Reading numbers off the front of a text.**  A scanner takes the characters left
  and gives what it read together with the characters after it, or nothing.

  `natOf` is the value of a run of ASCII digits, and `number` reads such a run of
  bounded length.
-/
import QueryLoom.Text.Blank

namespace QueryLoom.Text

/-- The value of one ASCII digit. -/
def digitValue (c : Char) : Nat := c.toNat - '0'.toNat

/-- The value of a hexadecimal digit of either case. -/
def hexValue? (c : Char) : Option Nat :=
  if c.isDigit then some (digitValue c)
  else if 'a' ≤ c && c ≤ 'f' then some (c.toNat - 'a'.toNat + 10)
  else if 'A' ≤ c && c ≤ 'F' then some (c.toNat - 'A'.toNat + 10)
  else none

/-- The number a run of decimal digits stands for. -/
def natOf (ds : List Char) : Nat := ds.foldl (fun n d => n * 10 + digitValue d) 0

/-- The number a run of hexadecimal digits stands for, refusing any other character. -/
def hexOf? (ds : List Char) : Option Nat :=
  ds.foldlM (fun n d => (hexValue? d).map (n * 16 + ·)) 0

/-- The longest run of decimal digits in front, and what follows it. -/
def digitRun (cs : List Char) : List Char × List Char := cs.span Char.isDigit

/-- Reads a number of one digit up to `most` digits. -/
def number (most : Nat) (cs : List Char) : Option (Nat × List Char) :=
  let ds := (cs.take most).takeWhile Char.isDigit
  if ds.isEmpty then none else some (natOf ds, cs.drop ds.length)

/-- Reads exactly the given character. -/
def literally (c : Char) : List Char → Option (Unit × List Char)
  | d :: rest => if d = c then some ((), rest) else none
  | [] => none

/-- The text before the first `c` and the text after it. -/
def splitOnce (c : Char) : List Char → Option (List Char × List Char)
  | [] => none
  | d :: rest =>
    if d = c then some ([], rest)
    else (splitOnce c rest).map fun (before, after) => (d :: before, after)

theorem eq_append_of_splitOnce {c : Char} {cs before after : List Char}
    (h : splitOnce c cs = some (before, after)) : cs = before ++ c :: after := by
  induction cs generalizing before after with
  | nil => simp [splitOnce] at h
  | cons d rest ih =>
    rw [splitOnce] at h
    split at h
    · next hd =>
      simp only [Option.some.injEq, Prod.mk.injEq] at h
      rw [← h.1, ← h.2, hd, List.nil_append]
    · obtain ⟨⟨b, a⟩, hb, he⟩ := Option.map_eq_some_iff.1 h
      simp only [Prod.mk.injEq] at he
      rw [← he.1, ← he.2, ih hb, List.cons_append]

/-- Decimal digits padded with zeros on the left to at least the given width. -/
def padded (width n : Nat) : String :=
  let ds := Nat.toDigits 10 n
  String.ofList (List.replicate (width - ds.length) '0' ++ ds)

end QueryLoom.Text
