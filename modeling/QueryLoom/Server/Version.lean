/-
  QueryLoom/Server/Version.lean
  =============================
  **Server versions**: four numbers, compared from the first to the last.

  A version is read from dotted numbers, of which the last ones may be missing, or from
  the string that a server gives of itself, such as `WI-V3.0.7.33374 Firebird 3.0`: the
  letters of a platform, a hyphen, and a word with the version after some letters.
-/
import QueryLoom.Json.Basic
import QueryLoom.Text.Escaped
import QueryLoom.Text.Scan

namespace QueryLoom

open Text

/-- The version of a server. -/
structure Version where
  major : UInt32
  minor : UInt32
  build : UInt32
  revision : UInt32
deriving DecidableEq, Repr

namespace Version

/-- The most recent version known. -/
def latest : Version := ⟨5, 0, 0, 0⟩

/-- Versions compare by the first number in which they differ. -/
instance : Ord Version where
  compare v w :=
    (compare v.major w.major).then <| (compare v.minor w.minor).then <|
      (compare v.build w.build).then (compare v.revision w.revision)

instance : LE Version := ⟨fun v w => (compare v w).isLE = true⟩

instance (v w : Version) : Decidable (v ≤ w) :=
  inferInstanceAs (Decidable ((compare v w).isLE = true))

/-- The four numbers with dots between them. -/
def write (v : Version) : String :=
  ".".intercalate ([v.major, v.minor, v.build, v.revision].map fun n => toString n.toNat)

/-- A version as JSON. -/
def toJson (v : Version) : Json :=
  .object [("major", .nat v.major.toNat), ("minor", .nat v.minor.toNat),
    ("build", .nat v.build.toNat), ("revision", .nat v.revision.toNat)]

/-- A version as messages show it in full. -/
def shown (v : Version) : String :=
  "ServerVersion \x7b major: " ++ toString v.major.toNat ++ ", minor: " ++ toString v.minor.toNat
    ++ ", build: " ++ toString v.build.toNat ++ ", revision: " ++ toString v.revision.toNat
    ++ " \x7d"

/-! ### Why a text is no version -/

/-- Why a text is not a number of 32 bits. -/
inductive FieldError where
  | empty
  | badDigit
  | tooLarge
deriving DecidableEq, Repr

/-- The wording of a field's error. -/
def FieldError.message : FieldError → String
  | empty => "cannot parse integer from empty string"
  | badDigit => "invalid digit found in string"
  | tooLarge => "number too large to fit in target type"

/-- Why a text is not a version. -/
inductive ReadError where
  | noNumber (text : String)
  | tooManyFields (text : String)
  | badField (text field : String) (reason : FieldError)
deriving DecidableEq, Repr

/-- What every error starts with. -/
def failedToParse (text : String) : String :=
  "Failed to parse server version \"" ++ text ++ "\": "

/-- The wording of an error. -/
def ReadError.message : ReadError → String
  | noNumber text => failedToParse text ++ "no version number found"
  | tooManyFields text => failedToParse text ++ "expected at most 4 fields"
  | badField text field _ => failedToParse text ++ "invalid field \"" ++ field ++ "\""

/-- The error behind an error. -/
def ReadError.cause? : ReadError → Option FieldError
  | badField _ _ reason => some reason
  | _ => none

/-! ### Reading -/

/-- A letter of ASCII. -/
def isAsciiLetter (c : Char) : Bool := c.isAlpha

/-- The part of a trimmed text that holds the numbers. -/
def dotted (text : List Char) : List Char :=
  match text.span (· != '-') with
  | (platform, _ :: rest) =>
    if !platform.isEmpty && platform.all isAsciiLetter then
      (firstWord rest).dropWhile isAsciiLetter
    else text
  | (_, []) => text

/-- The texts between the dots, at least one. -/
def splitDots : List Char → List (List Char)
  | [] => [[]]
  | c :: rest =>
    if c = '.' then [] :: splitDots rest
    else match splitDots rest with
      | field :: fields => (c :: field) :: fields
      | [] => [[c]]

/-- Reads digits from left to right on top of the number read so far. -/
def digits? (n : Nat) : List Char → Except FieldError Nat
  | [] => .ok n
  | c :: rest =>
    if !c.isDigit then .error .badDigit
    else if UInt32.size ≤ n * 10 + digitValue c then .error .tooLarge
    else digits? (n * 10 + digitValue c) rest

/-- Reads a number of 32 bits.  A plus may stand in front. -/
def field? : List Char → Except FieldError Nat
  | [] => .error .empty
  | ['+'] => .error .badDigit
  | '+' :: ds => digits? 0 ds
  | ds => digits? 0 ds

/-- Reads the fields from left to right. -/
def fields? (text : List Char) : List (List Char) → Except ReadError (List Nat)
  | [] => .ok []
  | field :: rest =>
    match field? field with
    | .error reason => .error (.badField (String.ofList text) (String.ofList field) reason)
    | .ok n => (fields? text rest).map (n :: ·)

/-- The version with the given numbers, missing ones zero. -/
def ofFields (ns : List Nat) : Version :=
  let field (i : Nat) : UInt32 := .ofNat (ns.getD i 0)
  ⟨field 0, field 1, field 2, field 3⟩

/-- Reads a version. -/
def ofString? (s : String) : Except ReadError Version :=
  let text := trim s.toList
  let numbers := dotted text
  let parts := splitDots numbers
  if numbers.isEmpty then .error (.noNumber (String.ofList text))
  else if 4 < parts.length then .error (.tooManyFields (String.ofList text))
  else (fields? text parts).map ofFields

end Version

end QueryLoom
