/-
  QueryLoom/Yaml/Name.lean
  ========================
  **Reading names off a YAML text**: tags, anchors and aliases, and the directives that give
  handles their meaning.

  A tag may hold any character, if it is written as octets: a percent sign and two
  hexadecimal digits for each.  The first octet of a character says how many follow.
-/
import QueryLoom.Yaml.Token

namespace QueryLoom.Yaml

/-! ### Escaped characters -/

/-- Reads an octet. -/
def octet? (c : Cursor) : Option (UInt8 × Cursor) :=
  match c.rest with
  | '%' :: x :: y :: _ => (Text.hexOf? [x, y]).map fun n => (.ofNat n, c.skip 3)
  | _ => none

/-- The number of octets that follow the first one of a character. -/
def octetsAfter? (first : UInt8) : Option Nat :=
  if first < 0x80 then some 0
  else if first < 0xC0 then none
  else if first < 0xE0 then some 1
  else if first < 0xF0 then some 2
  else if first < 0xF8 then some 3
  else none

/-- Reads so many octets after the first one of a character. -/
def restOfChar? : Nat → Cursor → Option (List UInt8 × Cursor)
  | 0, c => some ([], c)
  | n + 1, c => do
    let (octet, c) ← octet? c
    if octet < 0x80 || 0xC0 ≤ octet then none
    let (rest, c) ← restOfChar? n c
    return (octet :: rest, c)

/-- Reads the octets of a character.  They may be none after all, where a shorter form exists
    or the number is that of no character. -/
def escapedChar? (c : Cursor) : Option (Option Char × Cursor) := do
  let (first, c) ← octet? c
  let (rest, c) ← restOfChar? (← octetsAfter? first) c
  return (ByteArray.utf8DecodeChar? ⟨(first :: rest).toArray⟩ 0, c)

/-! ### Tags -/

/-- The characters that stand for themselves in a tag.  Between angle brackets three more are
    allowed. -/
def isTagChar (verbatim : Bool) (c : Char) : Bool :=
  isNameChar c || ";/?:@&=+$.!~*'()".toList.contains c
    || (verbatim && ",[]".toList.contains c)

/-- Reads the characters of a tag.  The fuel is the number of characters left. -/
def tagChars? (verbatim : Bool) : Nat → Cursor → Option (List (Option Char) × Cursor)
  | 0, c => some ([], c)
  | fuel + 1, c => do
    let one ← match c.next with
      | some '%' => (escapedChar? c).map some
      | some ch => some (if isTagChar verbatim ch then some (some ch, c.skip 1) else none)
      | none => some none
    match one with
    | none => return ([], c)
    | some (ch, c) =>
      let (rest, c) ← tagChars? verbatim fuel c
      return (ch :: rest, c)

/-- Reads a handle: an exclamation mark, and a name with another mark or without. -/
def handle? (c : Cursor) : Option (List Char × Cursor) :=
  if c.next != some '!' then none
  else
    let (name, c) := (c.skip 1).run isNameChar
    if c.next == some '!' then some ('!' :: name ++ ['!'], c.skip 1) else some ('!' :: name, c)

/-- Reads a tag as its handle and what follows it.  A mark alone is a tag of its own. -/
def tag? (flow : Bool) (c : Cursor) : Option (Token × Cursor) := do
  let fuel := c.rest.length
  let (token, c) ←
    if c.ahead 1 == some '<' then do
      let (chars, c) ← tagChars? true fuel (c.skip 2)
      if chars.isEmpty || c.next != some '>' then none
      else some (Token.tag "" (.ofChars chars), c.skip 1)
    else do
      let (handle, c) ← handle? c
      let (chars, c) ← tagChars? false fuel c
      if 1 < handle.length && handle.getLast? == some '!' then
        if chars.isEmpty then none
        else some (Token.tag (String.ofList handle) (.ofChars chars), c)
      else
        let suffix := Tag.ofChars ((handle.drop 1).map some ++ chars)
        if suffix.chars.isEmpty then some (Token.tag "" (.ofString "!"), c)
        else some (Token.tag "!" suffix, c)
  if endsWord c.next || (flow && c.next == some ',') then return (token, c) else none

/-! ### Anchors and aliases -/

/-- Reads the name of an anchor or an alias from after its sign. -/
def name? (c : Cursor) : Option (String × Cursor) :=
  let (name, c) := c.run isNameChar
  let ends := endsWord c.next || c.next.any fun ch => "?:,]\x7d%@\x60".toList.contains ch
  if name.isEmpty || !ends then none else some (String.ofList name, c)

/-! ### Directives -/

/-- Reads a number of at most nine digits. -/
def versionNumber? (c : Cursor) : Option (Nat × Cursor) :=
  let (digits, c) := c.run Char.isDigit
  if digits.isEmpty || 9 < digits.length then none else some (Text.natOf digits, c)

/-- Reads the two numbers of a version. -/
def versionNumbers? (c : Cursor) : Option (Token × Cursor) := do
  let (major, c) ← versionNumber? c
  if c.next != some '.' then none
  let (minor, c) ← versionNumber? (c.skip 1)
  return (.versionDirective major minor, c)

/-- Reads a handle for tags and what it stands for. -/
def tagMeaning? (c : Cursor) : Option (Token × Cursor) := do
  let (handle, c) ← handle? c
  if handle.length != 1 && handle.getLast? != some '!' then none
  if !(c.next.any isSpace) then none
  let c := c.pass isSpace
  let (chars, c) ← tagChars? true c.rest.length c
  if chars.isEmpty || !endsWord c.next then none
  return (.tagDirective (String.ofList handle) (.ofChars chars), c)

/-- Reads a directive from after its sign. -/
def directive? (c : Cursor) : Option (Token × Cursor) := do
  let (name, c) := c.run isNameChar
  if !(c.next.any isSpace) then none
  let c := c.pass isSpace
  let (token, c) ← match String.ofList name with
    | "YAML" => versionNumbers? c
    | "TAG" => tagMeaning? c
    | _ => none
  return (token, ← c.endLine?)

end QueryLoom.Yaml
