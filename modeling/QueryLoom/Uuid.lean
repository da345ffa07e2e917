/-
  QueryLoom/Uuid.lean
  ===================
  **Universally unique identifiers**: 128 bits, written as hexadecimal digits in groups of
  8, 4, 4, 4 and 12 with hyphens between them.
-/
import QueryLoom.Text.Scan

namespace QueryLoom

/-- A universally unique identifier. -/
structure Uuid where
  bits : BitVec 128
deriving DecidableEq

namespace Uuid

open Text

/-- The 32 digits without hyphens. -/
def ofDigits? (ds : List Char) : Option Uuid :=
  if ds.length = 32 then (hexOf? ds).map fun n => ⟨BitVec.ofNat 128 n⟩ else none

/-- Takes out the hyphens after the groups, refusing a text without one where it belongs. -/
def ungroup? (cs : List Char) : Option (List Char) :=
  let groups := [(0, 8), (9, 4), (14, 4), (19, 4), (24, 12)]
  if cs.length = 36 && [8, 13, 18, 23].all fun i => cs[i]? == some '-' then
    some (groups.flatMap fun (start, size) => (cs.drop start).take size)
  else none

/-- Reads 32 digits, or the hyphenated form alone, in braces or as a URN, whose name may be in
    letters of either case. -/
def ofString? (s : String) : Option Uuid :=
  let cs := s.toList
  let hyphenated := fun cs => (ungroup? cs).bind ofDigits?
  if cs.length = 32 then ofDigits? cs
  else if cs.length = 38 && cs.head? == some '\x7b' && cs.getLast? == some '\x7d' then
    hyphenated (cs.drop 1).dropLast
  else if cs.length = 45 && (cs.take 9).map Char.toLower == "urn:uuid:".toList then
    hyphenated (cs.drop 9)
  else hyphenated cs

/-- The hyphenated form in lower case. -/
def write (u : Uuid) : String :=
  let ds := Nat.toDigits 16 u.bits.toNat
  let ds := List.replicate (32 - ds.length) '0' ++ ds
  let part := fun start size => String.ofList ((ds.drop start).take size)
  "-".intercalate [part 0 8, part 8 4, part 12 4, part 16 4, part 20 12]

end Uuid

end QueryLoom
