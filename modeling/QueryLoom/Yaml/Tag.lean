/-
  QueryLoom/Yaml/Tag.lean
  =======================
  **Tags.**  A tag that starts with an exclamation mark is the document's own and names a
  kind of value.  Of the other tags some are known to every document, and the rest mean
  nothing.

  The characters of a tag may be written octet by octet.  Octets that are no character leave
  the tag without a text, and then it names nothing.
-/

namespace QueryLoom.Yaml

/-- A tag.  Nothing stands for octets that are no character. -/
structure Tag where
  chars : List (Option Char)
deriving DecidableEq, Repr

namespace Tag

/-- The tag with the given text. -/
def ofString (s : String) : Tag := ⟨s.toList.map some⟩

/-- The tag with the given characters, which ends at the first null among them. -/
def ofChars (cs : List (Option Char)) : Tag := ⟨cs.takeWhile (· != some (Char.ofNat 0))⟩

/-- One tag after another. -/
def append (s t : Tag) : Tag := ⟨s.chars ++ t.chars⟩

/-- A tag that every document has. -/
def core (name : String) : Tag := ofString ("tag:yaml.org,2002:" ++ name)

/-- The text of a tag that has one. -/
def text? (t : Tag) : Option String := (t.chars.mapM id).map String.ofList

/-- Whether the tag is the document's own. -/
def isLocal (t : Tag) : Bool := t.chars.head? == some (some '!')

/-- A name without the exclamation mark in front of it, unless there is nothing else. -/
def unmarked (name : String) : String :=
  match name.toList with
  | '!' :: c :: rest => String.ofList (c :: rest)
  | _ => name

/-- What a tag of the document's own names. -/
def name? (t : Tag) : Option String := if t.isLocal then t.text?.map unmarked else none

end Tag

end QueryLoom.Yaml
