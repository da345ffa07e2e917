/-
  QueryLoom/Data/Value.lean
  =========================
  **Values** of the data types, with their JSON form and the text that messages show for
  them.

  Two values can agree without being the same: `agrees` compares numbers by value, so
  the decimals `1.0` and `1.00` agree, and a floating-point number without a value
  does not even agree with itself.
-/
import QueryLoom.Data.DataType
import QueryLoom.Number.Decimal
import QueryLoom.Calendar.Time
import QueryLoom.Uuid
import QueryLoom.Text.Escaped

namespace QueryLoom

open Number

/-- A value of one of the data types. -/
inductive Value where
  | null
  | string (s : String)
  | binary (bytes : List UInt8)
  | boolean (b : Bool)
  | int16 (n : Int16)
  | int32 (n : Int32)
  | int64 (n : Int64)
  | single (x : Binary .single)
  | double (x : Binary .double)
  | decimal (d : Decimal)
  | date (d : Calendar.Date)
  | time (t : Calendar.Time)
  | dateTime (dt : Calendar.DateTime)
  | uuid (u : Uuid)
deriving DecidableEq

namespace Value

/-- The type of a value.  Texts and decimals carry no options. -/
def type : Value → DataType
  | null => .null
  | string _ => .string none
  | binary _ => .binary
  | boolean _ => .boolean
  | int16 _ => .int16
  | int32 _ => .int32
  | int64 _ => .int64
  | single _ => .single
  | double _ => .double
  | decimal _ => .decimal none none
  | date _ => .date
  | time _ => .time
  | dateTime _ => .dateTime
  | uuid _ => .uuid

/-- Whether the value is the null. -/
def isNull : Value → Bool
  | null => true
  | _ => false

/-- The number of an integer value. -/
def integer? : Value → Option Int
  | int16 n => some n.toInt
  | int32 n => some n.toInt
  | int64 n => some n.toInt
  | _ => none

/-- Equality of values. -/
def agrees : Value → Value → Bool
  | single x, single y => x.agrees y
  | double x, double y => x.agrees y
  | decimal x, decimal y => x.agrees y
  | x, y => x == y

/-- A value as messages show it. -/
def shown : Value → String
  | null => "Null"
  | string s => "Utf8String(" ++ Text.shown s ++ ")"
  | binary bytes => "Binary(" ++ Text.bracketed (bytes.map fun b => toString b.toNat) ++ ")"
  | boolean b => "Boolean(" ++ (if b then "true" else "false") ++ ")"
  | int16 n => "Int16(" ++ toString n.toInt ++ ")"
  | int32 n => "Int32(" ++ toString n.toInt ++ ")"
  | int64 n => "Int64(" ++ toString n.toInt ++ ")"
  | single x => "Float32(" ++ x.write plainLayout ++ ")"
  | double x => "Float64(" ++ x.write plainLayout ++ ")"
  | decimal d => "Decimal(" ++ d.write ++ ")"
  | date d => "Date(" ++ d.write ++ ")"
  | time t => "Time(" ++ t.write ++ ")"
  | dateTime dt => "DateTime(" ++ dt.write ++ ")"
  | uuid u => "Uuid(" ++ u.write ++ ")"

/-! ### JSON -/

/-- A value as JSON. -/
def toJson : Value → Json
  | null => .string "Null"
  | string s => .tagged "Utf8String" (.string s)
  | binary bytes => .tagged "Binary" (.array (bytes.map fun b => .nat b.toNat))
  | boolean b => .tagged "Boolean" (.bool b)
  | int16 n => .tagged "Int16" (.int n.toInt)
  | int32 n => .tagged "Int32" (.int n.toInt)
  | int64 n => .tagged "Int64" (.int n.toInt)
  | single x => .tagged "Float32" (.number (.single x))
  | double x => .tagged "Float64" (.number (.double x))
  | decimal d => .tagged "Decimal" (.string d.write)
  | date d => .tagged "Date" (.string d.write)
  | time t => .tagged "Time" (.string t.write)
  | dateTime dt => .tagged "DateTime" (.string dt.write)
  | uuid u => .tagged "Uuid" (.string u.write)

/-- Reads a value that is given by its type's name and a text. -/
def ofText? (type text : String) : Option Value :=
  match type with
  | "Utf8String" => some (string text)
  | "Decimal" => (Decimal.ofString? text).map decimal
  | "Date" => (Calendar.Date.ofString? text).map date
  | "Time" => (Calendar.Time.ofString? text).map time
  | "DateTime" => (Calendar.DateTime.ofString? text).map dateTime
  | "Uuid" => (Uuid.ofString? text).map uuid
  | _ => none

/-- Reads a value that is given by its type's name and an integer in the type's range. -/
def ofInteger? (type : String) (n : Int) : Option Value :=
  let within (bits : Nat) : Bool :=
    -(Number.twoTo (bits - 1) : Int) ≤ n && n < Number.twoTo (bits - 1)
  match type with
  | "Int16" => if within 16 then some (int16 (.ofInt n)) else none
  | "Int32" => if within 32 then some (int32 (.ofInt n)) else none
  | "Int64" => if within 64 then some (int64 (.ofInt n)) else none
  | _ => none

/-- Reads a value. -/
def ofJson? (depth : Nat) (j : Json) : Option Value :=
  if Json.unit? depth j == some "Null" then some null
  else do
    let v ← Json.variant? depth j
    match v.payload with
    | .string text => ofText? v.name text
    | payload =>
      match v.name with
      | "Boolean" => payload.bool?.map boolean
      | "Float32" => (payload.binary? .single).map single
      | "Float64" => (payload.binary? .double).map double
      | "Binary" =>
        let bytes ← Json.items? v.inner payload
        return binary (← bytes.items.mapM fun j => (j.intBetween? 0 255).map fun n => .ofInt n)
      | name => payload.int?.bind (ofInteger? name)

end Value

end QueryLoom
