/-
  QueryLoom/Json/Printer.lean
  ===========================
  **JSON as text**, compact or with two spaces of indentation for each level.  Strings
  escape quotes, backslashes and controls below the space, and nothing else.
-/
import QueryLoom.Json.Basic
import QueryLoom.Text.Escaped

namespace QueryLoom.Json

open QueryLoom.Number

/-! ### Scalars -/

/-- The layout of floating-point numbers in JSON: positional from a hundred-thousandth to
    below ten to the sixteenth, and an exponent with its sign. -/
def jsonLayout : Layout := ⟨-5, 15, true, "null", "null"⟩

/-- One character between the quotes of a JSON string. -/
def stringChar (c : Char) : List Char :=
  if c = '"' then ['\\', '"']
  else if c = '\\' then ['\\', '\\']
  else if c = '\n' then ['\\', 'n']
  else if c = '\r' then ['\\', 'r']
  else if c = '\t' then ['\\', 't']
  else if c.toNat = 8 then ['\\', 'b']
  else if c.toNat = 12 then ['\\', 'f']
  else if c.toNat < 32 then
    ['\\', 'u', '0', '0', if c.toNat < 16 then '0' else '1', Nat.digitChar (c.toNat % 16)]
  else [c]

/-- A text as a JSON string. -/
def stringText (s : String) : String :=
  String.ofList ('"' :: (s.toList.flatMap stringChar ++ ['"']))

/-- A string of half a character. -/
def halfText : String := "\"\\ud800\""

/-- A number; what is not finite has no JSON form and is written `null`. -/
def numberText : Json.Number → String
  | .integer n => toString n
  | .single x => if x.isFinite then x.write jsonLayout else "null"
  | .double x => if x.isFinite then x.write jsonLayout else "null"

/-! ### Values -/

mutual

/-- A value on one line without spaces. -/
def compact : Json → String
  | .null => "null"
  | .bool b => if b then "true" else "false"
  | .number n => numberText n
  | .string s => stringText s
  | .array items => "[" ++ ",".intercalate (compactItems items) ++ "]"
  | .object fields => "\x7b" ++ ",".intercalate (compactFields fields) ++ "\x7d"
  | .unreadable => halfText

/-- The items of an array, each compact. -/
def compactItems : List Json → List String
  | [] => []
  | j :: rest => compact j :: compactItems rest

/-- The fields of an object, each compact. -/
def compactFields : List (String × Json) → List String
  | [] => []
  | (name, j) :: rest => (stringText name ++ ":" ++ compact j) :: compactFields rest

end

/-- A line break and the indentation of a level. -/
def newLine (level : Nat) : String :=
  String.ofList ('\n' :: List.replicate (2 * level) ' ')

mutual

/-- A value over several lines, each item and field on a line of its own. -/
def prettyAt (level : Nat) : Json → String
  | .null => "null"
  | .bool b => if b then "true" else "false"
  | .number n => numberText n
  | .string s => stringText s
  | .array [] => "[]"
  | .array items =>
    "[" ++ ",".intercalate (prettyItems (level + 1) items) ++ newLine level ++ "]"
  | .object [] => "\x7b\x7d"
  | .object fields =>
    "\x7b" ++ ",".intercalate (prettyFields (level + 1) fields) ++ newLine level ++ "\x7d"
  | .unreadable => halfText

/-- The items of an array, each on a new line. -/
def prettyItems (level : Nat) : List Json → List String
  | [] => []
  | j :: rest => (newLine level ++ prettyAt level j) :: prettyItems level rest

/-- The fields of an object, each on a new line. -/
def prettyFields (level : Nat) : List (String × Json) → List String
  | [] => []
  | (name, j) :: rest =>
    (newLine level ++ stringText name ++ ": " ++ prettyAt level j) :: prettyFields level rest

end

/-- A value over several lines. -/
def pretty (j : Json) : String := prettyAt 0 j

end QueryLoom.Json
