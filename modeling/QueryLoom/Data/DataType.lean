/-
  QueryLoom/Data/DataType.lean
  ============================
  **Data types** of values and parameters, with their JSON form and the text that messages
  show for them.
-/
import QueryLoom.Json.Record

namespace QueryLoom

/-- The type of a value. -/
inductive DataType where
  | string (length? : Option UInt32)
  | binary
  | boolean
  | int16
  | int32
  | int64
  | single
  | double
  | decimal (precision? scale? : Option UInt16)
  | date
  | time
  | dateTime
  | uuid
  | null
deriving DecidableEq, Repr

namespace DataType

/-- The types whose values can count rows. -/
def isInteger : DataType → Bool
  | int16 | int32 | int64 => true
  | _ => false

/-- The name of a type without its options. -/
def name : DataType → String
  | string _ => "Utf8String"
  | binary => "Binary"
  | boolean => "Boolean"
  | int16 => "Int16"
  | int32 => "Int32"
  | int64 => "Int64"
  | single => "Float32"
  | double => "Float64"
  | decimal .. => "Decimal"
  | date => "Date"
  | time => "Time"
  | dateTime => "DateTime"
  | uuid => "Uuid"
  | null => "Null"

/-- The types that have no options. -/
def plain : List DataType :=
  [binary, boolean, int16, int32, int64, single, double, date, time, dateTime, uuid, null]

/-- A number that may be left out, as messages show it. -/
def shownOption : Option Nat → String
  | some n => "Some(" ++ toString n ++ ")"
  | none => "None"

/-- A type as messages show it. -/
def shown : DataType → String
  | string length? =>
    "Utf8String(StringOptions \x7b length: " ++ shownOption (length?.map (·.toNat)) ++ " \x7d)"
  | decimal precision? scale? =>
    "Decimal(DecimalOptions \x7b precision: " ++ shownOption (precision?.map (·.toNat))
      ++ ", scale: " ++ shownOption (scale?.map (·.toNat)) ++ " \x7d)"
  | t => t.name

/-! ### JSON -/

/-- A type as JSON. -/
def toJson : DataType → Json
  | string length? =>
    .tagged "Utf8String" (.object [("length", .ofOption (fun n => .nat n.toNat) length?)])
  | decimal precision? scale? =>
    .tagged "Decimal" (.object [("precision", .ofOption (fun n => .nat n.toNat) precision?),
      ("scale", .ofOption (fun n => .nat n.toNat) scale?)])
  | t => .string t.name

/-- A natural number below a bound. -/
def below? (bound : Nat) (j : Json) : Option Nat := (j.intBetween? 0 (bound - 1)).map Int.toNat

/-- Reads a type. -/
def ofJson? (depth : Nat) (j : Json) : Option DataType :=
  match (Json.unit? depth j).bind fun n => plain.find? fun t => t.name == n with
  | some t => some t
  | none => do
    let v ← Json.variant? depth j
    match v.name with
    | "Utf8String" =>
      let r ← Json.record? ["length"] 1 v.inner v.payload
      let length? ← r.optional? "length" (below? UInt32.size)
      return string (length?.map .ofNat)
    | "Decimal" =>
      let r ← Json.record? ["precision", "scale"] 2 v.inner v.payload
      let precision? ← r.optional? "precision" (below? UInt16.size)
      let scale? ← r.optional? "scale" (below? UInt16.size)
      return decimal (precision?.map .ofNat) (scale?.map .ofNat)
    | _ => none

end DataType

end QueryLoom
