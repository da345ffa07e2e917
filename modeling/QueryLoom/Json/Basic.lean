/-
  QueryLoom/Json/Basic.lean
  =========================
  **JSON values.**  The fields of an object keep their order, and a name may stand twice:
  what a repeated name means is for the reader of the value to say.

  A number is an integer when it was written without fraction and exponent and fits 64
  bits, signed or unsigned; any other number is a floating-point number.

  A string may escape half of a pair that stands for one character.  Then it has no text, and
  neither it nor an object with such a name can be read, but both can be passed over.
-/
import QueryLoom.Number.Shortest

namespace QueryLoom

open Number

/-- A JSON number. -/
inductive Json.Number where
  | integer (n : Int)
  | single (x : Binary .single)
  | double (x : Binary .double)
deriving DecidableEq

/-- A JSON value. -/
inductive Json where
  | null
  | bool (b : Bool)
  | number (n : Json.Number)
  | string (s : String)
  | array (items : List Json)
  | object (fields : List (String × Json))
  /-- A value with half a character in a text. -/
  | unreadable

namespace Json

instance : Inhabited Json := ⟨.null⟩

/-- The text as a JSON string. -/
instance : Coe String Json := ⟨.string⟩

/-- An integer as a JSON number. -/
def int (n : Int) : Json := .number (.integer n)

/-- A natural number as a JSON number. -/
def nat (n : Nat) : Json := int n

/-- A value, or `null` for none. -/
def ofOption {α : Type} (toJson : α → Json) : Option α → Json
  | some x => toJson x
  | none => .null

/-- A list of texts. -/
def strings (items : List String) : Json := .array (items.map .string)

/-- An object with one field. -/
def tagged (name : String) (payload : Json) : Json := .object [(name, payload)]

/-- The field of an object with the given name, the last one if there are several. -/
def field? (name : String) : Json → Option Json
  | .object fields => (fields.reverse.find? fun f => f.1 == name).map (·.2)
  | _ => none

/-- The text of a string. -/
def string? : Json → Option String
  | .string s => some s
  | _ => none

/-- The value of a number that was written as an integer. -/
def int? : Json → Option Int
  | .number (.integer n) => some n
  | _ => none

/-- The value of a number that was written as an integer within bounds. -/
def intBetween? (low high : Int) (j : Json) : Option Int :=
  j.int?.bind fun n => if low ≤ n && n ≤ high then some n else none

/-- The items of an array. -/
def array? : Json → Option (List Json)
  | .array items => some items
  | _ => none

end Json

end QueryLoom
