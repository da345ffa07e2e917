/-
  QueryLoom/Yaml/Token.lean
  =========================
  **The tokens of a YAML text, and where in the text one stands.**  Blocks have tokens for
  their start and end although nothing in the text but the indentation says so.

  Line breaks of every kind are made one character before anything is read, except for the
  two separators of Unicode, which stay as they are.
-/
import QueryLoom.Text.Scan
import QueryLoom.Yaml.Tag

namespace QueryLoom.Yaml

/-- How a scalar is written: between quotes, or as a block whose lines are kept or folded, or
    as none of these. -/
inductive ScalarStyle where
  | plain
  | quoted
  | literal
  | folded
deriving DecidableEq, Repr

/-- A token. -/
inductive Token where
  | versionDirective (major minor : Nat)
  | tagDirective (handle : String) (stem : Tag)
  | documentStart
  | documentEnd
  | blockSequenceStart
  | blockMappingStart
  | blockEnd
  | flowSequenceStart
  | flowSequenceEnd
  | flowMappingStart
  | flowMappingEnd
  | blockEntry
  | flowEntry
  | key
  | value
  | aliasOf (name : String)
  | anchor (name : String)
  | tag (handle : String) (suffix : Tag)
  | scalar (text : String) (style : ScalarStyle)
deriving DecidableEq, Repr

/-! ### Characters -/

/-- The characters that a text may hold. -/
def isAllowed (c : Char) : Bool :=
  let n := c.toNat
  n == 9 || n == 10 || n == 13 || (32 ≤ n && n ≤ 126) || n == 0x85
    || (0xA0 ≤ n && n ≤ 0xFFFD) || 0x10000 ≤ n

/-- The text with line breaks of every kind as one character. -/
def unifyBreaks : List Char → List Char
  | '\r' :: '\n' :: rest => '\n' :: unifyBreaks rest
  | c :: rest =>
    (if c = '\r' || c.toNat = 0x85 then '\n' else c) :: unifyBreaks rest
  | [] => []

/-- A line break. -/
def isBreak (c : Char) : Bool := c = '\n' || c.toNat = 0x2028 || c.toNat = 0x2029

/-- A blank within a line. -/
def isSpace (c : Char) : Bool := c = ' ' || c = '\t'

/-- A blank or a line break. -/
def isGap (c : Char) : Bool := isSpace c || isBreak c

/-- Whether what comes next ends a word: a blank, a line break or the end of the text. -/
def endsWord : Option Char → Bool
  | none => true
  | some c => isGap c

/-- A character of a name. -/
def isNameChar (c : Char) : Bool := c.isAlphanum || c = '_' || c = '-'

/-! ### Positions -/

/-- A position in a text: what is left of it, and how much has been passed. -/
structure Cursor where
  rest : List Char
  line : Nat := 0
  column : Nat := 0
  index : Nat := 0

namespace Cursor

/-- The character ahead by `i`. -/
def ahead (c : Cursor) (i : Nat) : Option Char := c.rest[i]?

/-- The next character. -/
def next (c : Cursor) : Option Char := c.rest.head?

/-- The position after `n` characters of the line. -/
def skip (c : Cursor) (n : Nat) : Cursor :=
  { c with rest := c.rest.drop n, column := c.column + n, index := c.index + n }

/-- The characters of the line up to the first that fails the test, and the position there. -/
def run (c : Cursor) (p : Char → Bool) : List Char × Cursor :=
  let cs := c.rest.takeWhile p
  (cs, c.skip cs.length)

/-- The position at the first character that fails the test. -/
def pass (c : Cursor) (p : Char → Bool) : Cursor := (c.run p).2

/-- The line break that comes next, and the position after it. -/
def lineBreak? (c : Cursor) : Option (Char × Cursor) :=
  match c.rest with
  | b :: rest =>
    if isBreak b then some (b, { rest, line := c.line + 1, column := 0, index := c.index + 1 })
    else none
  | [] => none

/-- Whether a mark between documents comes next. -/
def atMark (c : Cursor) : Bool :=
  let mark := c.rest.take 3
  c.column = 0 && (mark == ['-', '-', '-'] || mark == ['.', '.', '.']) && endsWord (c.ahead 3)

/-- The position after blanks and a comment that end a line, which nothing else may stand in
    the way of. -/
def endLine? (c : Cursor) : Option Cursor :=
  let c := c.pass isSpace
  let c := if c.next == some '#' then c.pass fun ch => !isBreak ch else c
  if c.rest.isEmpty then some c else c.lineBreak?.map (·.2)

end Cursor

end QueryLoom.Yaml
