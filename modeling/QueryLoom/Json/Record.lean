/-
  QueryLoom/Json/Record.lean
  ==========================
  **Records and variants in JSON.**  A record is an object of its fields, or an array of
  all of them in order.  A variant is an object whose only field is the variant's name;
  one without a payload may also stand as its name alone.

  A reader is told how deep the value may still go, and every array or object that it
  enters takes one away.  So reading stops on values that are nested too deeply, and
  the bounds in `Variant` and `Record` are what the recursion of a reader needs.
-/
import QueryLoom.Json.Basic

namespace QueryLoom.Json

open QueryLoom.Number

/-- How many arrays and objects may be entered, less one. -/
def maxDepth : Nat := 128

/-- A variant with its payload. -/
structure Variant (depth : Nat) where
  name : String
  payload : Json
  inner : Nat
  inner_lt : inner < depth

/-- Reads a variant that has a payload. -/
def variant? (depth : Nat) : Json → Option (Variant depth)
  | .object [(name, payload)] =>
    if h : 1 < depth then some ⟨name, payload, depth - 1, by omega⟩ else none
  | _ => none

/-- The name of a variant without a payload. -/
def unit? (depth : Nat) : Json → Option String
  | .string name => some name
  | .object [(name, .null)] => if 1 < depth then some name else none
  | _ => none

/-- The fields of a record that are present, by name. -/
structure Record (depth : Nat) where
  fields : List (String × Json)
  inner : Nat
  inner_lt : inner < depth

/-- Reads a record with the given fields.  Other fields of an object are passed over, but a
    field may not stand twice.  An array may leave out fields after the first `least`. -/
def record? (names : List String) (least depth : Nat) (j : Json) : Option (Record depth) :=
  if h : 1 < depth then
    match j with
    | .object fields =>
      let known := fields.filter fun f => names.contains f.1
      if (known.map (·.1)).Nodup then some ⟨known, depth - 1, by omega⟩ else none
    | .array items =>
      if least ≤ items.length && items.length ≤ names.length then
        some ⟨names.zip items, depth - 1, by omega⟩
      else none
    | _ => none
  else none

/-- The value of a field. -/
def Record.field? {depth : Nat} (r : Record depth) (name : String) : Option Json :=
  (r.fields.find? fun f => f.1 == name).map (·.2)

/-- The text of a field. -/
def Record.string? {depth : Nat} (r : Record depth) (name : String) : Option String :=
  (r.field? name).bind Json.string?

/-- A field that may be missing or `null`: nothing when its value is refused. -/
def Record.optional? {depth : Nat} {α : Type} (r : Record depth) (name : String)
    (read : Json → Option α) : Option (Option α) :=
  match r.field? name with
  | none | some .null => some none
  | some j => (read j).map some

/-- The items of an array. -/
structure Items (depth : Nat) where
  items : List Json
  inner : Nat
  inner_lt : inner < depth

/-- Reads an array. -/
def items? (depth : Nat) : Json → Option (Items depth)
  | .array items => if h : 1 < depth then some ⟨items, depth - 1, by omega⟩ else none
  | _ => none

/-- Reads a number as a floating-point number.  One too large for a double is refused. -/
def binary? (f : BinaryFormat) : Json → Option (Binary f)
  | .number (.integer n) => some (Binary.ofRatio f (n < 0) n.natAbs 1)
  | .number (.double x) => if x.isFinite then some (x.convert f) else none
  | .number (.single x) => if x.isFinite then some (x.convert f) else none
  | _ => none

/-- Reads `true` or `false`. -/
def bool? : Json → Option Bool
  | .bool b => some b
  | _ => none

end QueryLoom.Json
