/-
  QueryLoom/Json/Reader.lean
  ==========================
  **Reading JSON text.**  A text is first cut into tokens and the tokens are then put
  together with a stack of the arrays and objects that are still open; both steps
  recurse on what is left to read.

  Numbers follow the grammar of JSON to the letter.  One with a fraction or an exponent
  is worked out in double precision from its first digits, up to what 64 bits hold,
  scaled by one power of ten.  It is infinite when that overflows, which whoever
  reads a number refuses.
-/
import QueryLoom.Json.Basic
import QueryLoom.Text.Scan

namespace QueryLoom.Json

open QueryLoom.Number QueryLoom.Text

/-! ### Numbers -/

/-- The greatest value of 64 bits. -/
def word64 : Nat := twoTo 64 - 1

/-- Leading digits as far as 64 bits hold them, and the number of digits after those. -/
def leading (ds : List Char) : Nat × Nat :=
  ds.foldl (fun (n, dropped) d =>
    let next := n * 10 + digitValue d
    if dropped = 0 && next ≤ word64 then (next, 0) else (n, dropped + 1)) (0, 0)

/-- Appends digits of a fraction as far as 64 bits hold them, and counts them. -/
def appendFraction (n : Nat) (count : Nat) : List Char → Nat × Nat
  | [] => (n, count)
  | d :: ds =>
    let next := n * 10 + digitValue d
    if next ≤ word64 then appendFraction next (count + 1) ds else (n, count)

/-- A power of ten in double precision. -/
def powerOfTen (k : Nat) : Binary .double := Binary.ofRatio .double false (tenTo k) 1

/-- `n · 10 ^ e` in double precision, scaled once; infinite when that overflows. -/
def scaleTen (n : Nat) (e : Int) : Binary .double :=
  let x := Binary.ofRatio .double false n 1
  let infinite : Binary .double := ⟨false, .infinite⟩
  let scaled :=
    if 308 < e then none
    else if 0 ≤ e then x.times (powerOfTen e.toNat)
    else if e < -308 then (x.quotient? (powerOfTen 308)).bind (·.quotient? (powerOfTen (-e - 308).toNat))
    else x.quotient? (powerOfTen (-e).toNat)
  if n = 0 || e < -616 then Binary.zero .double false else scaled.getD infinite

/-- The parts of a number's text. -/
structure Numeral where
  negative : Bool
  whole : List Char
  fraction : Option (List Char)
  exponent : Option Int

/-- Takes an exponent with its sign: the whole text must be digits after it. -/
def exponentOf? (cs : List Char) : Option Int :=
  let (negative, ds) := match cs with
    | '-' :: ds => (true, ds)
    | '+' :: ds => (false, ds)
    | ds => (false, ds)
  if ds.isEmpty || !ds.all Char.isDigit then none
  else some (if negative then -(natOf ds : Int) else natOf ds)

/-- Takes a text apart by the grammar of JSON numbers. -/
def numeral? (cs : List Char) : Option Numeral := do
  let (negative, cs) := match cs with
    | '-' :: rest => (true, rest)
    | rest => (false, rest)
  let (whole, cs) := digitRun cs
  if whole.isEmpty || (whole.head? == some '0' && whole.length != 1) then none
  let (fraction, cs) ← match cs with
    | '.' :: rest =>
      let (ds, rest) := digitRun rest
      if ds.isEmpty then none else some (some ds, rest)
    | rest => some (none, rest)
  match cs with
  | [] => return ⟨negative, whole, fraction, none⟩
  | e :: rest =>
    if e = 'e' || e = 'E' then return ⟨negative, whole, fraction, some (← exponentOf? rest)⟩
    else none

/-- The value of a number's parts. -/
def Numeral.value (x : Numeral) : Json.Number :=
  let (n, dropped) := leading x.whole
  match x.fraction, x.exponent with
  | none, none =>
    if dropped = 0 && !x.negative then .integer n
    else if dropped = 0 && n != 0 && n ≤ twoTo 63 then .integer (-n)
    else .double { scaleTen n dropped with negative := x.negative }
  | fraction, exponent =>
    let (n, count) := appendFraction n 0 (fraction.getD [])
    let e := (dropped : Int) - count + exponent.getD 0
    .double { scaleTen n e with negative := x.negative }

/-! ### Tokens -/

/-- The pieces a text is made of. -/
inductive Token where
  | openArray
  | closeArray
  | openObject
  | closeObject
  | comma
  | colon
  | value (j : Json)

/-- A piece of a string: a character, or half of a pair that stands for one. -/
inductive Piece where
  | char (c : Char)
  | half (code : Nat)

/-- What the tokenizer is in the middle of.  Collected characters stand in reverse. -/
inductive Mode where
  | between
  | word (chars : List Char)
  | string (pieces : List Piece)
  | escape (pieces : List Piece)
  | code (pieces : List Piece) (digits : List Char)

/-- A word or a number as a value. -/
def wordValue? (cs : List Char) : Option Json :=
  match String.ofList cs with
  | "null" => some .null
  | "true" => some (.bool true)
  | "false" => some (.bool false)
  | _ => (numeral? cs).map fun x => .number x.value

/-- A character that belongs to a word or a number. -/
def isWordChar (c : Char) : Bool := c.isAlphanum || c = '+' || c = '-' || c = '.'

/-- The character that a simple escape stands for. -/
def escaped? (c : Char) : Option Char :=
  match c with
  | '"' | '\\' | '/' => some c
  | 'b' => some (Char.ofNat 8)
  | 'f' => some (Char.ofNat 12)
  | 'n' => some '\n'
  | 'r' => some '\r'
  | 't' => some '\t'
  | _ => none

/-- A token that is a single character; the inner nothing is white space. -/
def symbol? (c : Char) : Option (Option Token) :=
  match c with
  | '[' => some (some .openArray)
  | ']' => some (some .closeArray)
  | '\x7b' => some (some .openObject)
  | '\x7d' => some (some .closeObject)
  | ',' => some (some .comma)
  | ':' => some (some .colon)
  | ' ' | '\n' | '\r' | '\t' => some none
  | _ => none

/-- The piece that four hexadecimal digits stand for. -/
def Piece.ofCode (n : Nat) : Piece := if n.isValidChar then char (Char.ofNat n) else half n

/-- The text of a string, if every half of a pair stands beside its partner. -/
def textOf? : List Piece → Option (List Char)
  | [] => some []
  | .char c :: rest => (textOf? rest).map (c :: ·)
  | .half high :: .half low :: rest =>
    if high < 0xDC00 && 0xDC00 ≤ low then
      (textOf? rest).map (Char.ofNat (0x10000 + (high - 0xD800) * 0x400 + (low - 0xDC00)) :: ·)
    else none
  | .half _ :: _ => none

/-- A string as a value. -/
def stringValue (pieces : List Piece) : Json :=
  match textOf? pieces with
  | some cs => .string (String.ofList cs)
  | none => .unreadable

/-- Cuts a text into tokens, the last one first. -/
def tokens? (mode : Mode) (done : List Token) : List Char → Option (List Token)
  | [] => match mode with
    | .between => some done
    | .word w => (wordValue? w.reverse).map fun j => .value j :: done
    | _ => none
  | c :: rest => match mode with
    | .between =>
      if c = '"' then tokens? (.string []) done rest
      else match symbol? c with
        | some token => tokens? .between (token.toList ++ done) rest
        | none => if isWordChar c then tokens? (.word [c]) done rest else none
    | .word w =>
      if isWordChar c then tokens? (.word (c :: w)) done rest
      else match wordValue? w.reverse, symbol? c with
        | some j, some token => tokens? .between (token.toList ++ .value j :: done) rest
        | _, _ => none
    | .string ps =>
      if c = '"' then tokens? .between (.value (stringValue ps.reverse) :: done) rest
      else if c = '\\' then tokens? (.escape ps) done rest
      else if c.toNat < 32 then none
      else tokens? (.string (.char c :: ps)) done rest
    | .escape ps =>
      if c = 'u' then tokens? (.code ps []) done rest
      else match escaped? c with
        | some d => tokens? (.string (.char d :: ps)) done rest
        | none => none
    | .code ps ds =>
      let ds := c :: ds
      if ds.length < 4 then tokens? (.code ps ds) done rest
      else match hexOf? ds.reverse with
        | some n => tokens? (.string (.ofCode n :: ps)) done rest
        | none => none

/-! ### Values -/

/-- A field of an object that is still open.  Its name may be unreadable. -/
abbrev Field := Option String × Json

/-- An array or an object that is still open, with what it holds so far in reverse. -/
inductive Frame where
  | array (items : List Json)
  | object (fields : List Field) (name? : Option String)

/-- An object with the given fields, which stand in reverse. -/
def ofFields (fields : List Field) : Json :=
  match fields.mapM fun (name?, j) => name?.map fun name => (name, j) with
  | some fields => .object fields.reverse
  | none => .unreadable

/-- What may come next. -/
inductive Expect where
  | value
  | firstItem
  | firstField
  | field
  | colon (fields : List Field) (name? : Option String)
  | afterValue (j : Json)

/-- Puts tokens together to one value, with the open arrays and objects on a stack. -/
def assemble? (expect : Expect) (stack : List Frame) : List Token → Option Json
  | [] => match expect, stack with
    | .afterValue j, [] => some j
    | _, _ => none
  | t :: rest => match expect, t, stack with
    | .value, .value j, stack => assemble? (.afterValue j) stack rest
    | .value, .openArray, stack => assemble? .firstItem (.array [] :: stack) rest
    | .value, .openObject, stack => assemble? .firstField stack rest
    | .firstItem, .closeArray, .array _ :: stack =>
      assemble? (.afterValue (.array [])) stack rest
    | .firstItem, .value j, stack => assemble? (.afterValue j) stack rest
    | .firstItem, .openArray, stack => assemble? .firstItem (.array [] :: stack) rest
    | .firstItem, .openObject, stack => assemble? .firstField stack rest
    | .firstField, .closeObject, stack => assemble? (.afterValue (.object [])) stack rest
    | .firstField, .value (.string name), stack => assemble? (.colon [] (some name)) stack rest
    | .firstField, .value .unreadable, stack => assemble? (.colon [] none) stack rest
    | .field, .value (.string name), .object fields _ :: stack =>
      assemble? (.colon fields (some name)) stack rest
    | .field, .value .unreadable, .object fields _ :: stack =>
      assemble? (.colon fields none) stack rest
    | .colon fields name?, .colon, stack => assemble? .value (.object fields name? :: stack) rest
    | .afterValue j, .comma, .array items :: stack =>
      assemble? .value (.array (j :: items) :: stack) rest
    | .afterValue j, .closeArray, .array items :: stack =>
      assemble? (.afterValue (.array (j :: items).reverse)) stack rest
    | .afterValue j, .comma, .object fields name? :: stack =>
      assemble? .field (.object ((name?, j) :: fields) none :: stack) rest
    | .afterValue j, .closeObject, .object fields name? :: stack =>
      assemble? (.afterValue (ofFields ((name?, j) :: fields))) stack rest
    | _, _, _ => none

/-- Reads a text that is one JSON value and nothing else but white space. -/
def parse? (text : String) : Option Json :=
  (tokens? .between [] text.toList).bind fun ts => assemble? .value [] ts.reverse

end QueryLoom.Json
