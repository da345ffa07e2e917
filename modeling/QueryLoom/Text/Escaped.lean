/-
  QueryLoom/Text/Escaped.lean
  ===========================
  **Texts written between quotes.**

  * `doubled` writes the quote character twice and everything else once: the way SQL
    quotes strings and identifiers.
  * `shown` puts a text between double quotes so that it can be read on one line: the
    usual backslash escapes, and `\u` with the number in braces for a character
    that has no glyph of its own.
  * `asciiEscaped` leaves only printable ASCII.
-/
import QueryLoom.Text.Printable

namespace QueryLoom.Text

/-! ### Doubling the quote -/

/-- The characters with each `q` written twice. -/
def doubled (q : Char) : List Char → List Char
  | [] => []
  | c :: cs => if c = q then q :: q :: doubled q cs else c :: doubled q cs

/-- The text between two `q`, with each `q` inside written twice. -/
def quoted (q : Char) (s : String) : String :=
  String.ofList (q :: (doubled q s.toList ++ [q]))

/-! ### Escapes with a backslash -/

/-- The number of a character, in lower-case hexadecimal between braces. -/
def byNumber (c : Char) : List Char :=
  ['\\', 'u', '\x7b'] ++ Nat.toDigits 16 c.toNat ++ ['\x7d']

/-- One character of a shown text. -/
def shownChar (c : Char) : List Char :=
  if c = '"' then ['\\', '"']
  else if c = '\\' then ['\\', '\\']
  else if c = '\n' then ['\\', 'n']
  else if c = '\r' then ['\\', 'r']
  else if c = '\t' then ['\\', 't']
  else if c.toNat = 0 then ['\\', '0']
  else if isPrintable c then [c]
  else byNumber c

/-- The text between double quotes, readable on one line. -/
def shown (s : String) : String :=
  String.ofList ('"' :: (s.toList.flatMap shownChar ++ ['"']))

/-- One character in printable ASCII. -/
def asciiChar (c : Char) : List Char :=
  if c = '"' then ['\\', '"']
  else if c = '\'' then ['\\', '\'']
  else if c = '\\' then ['\\', '\\']
  else if c = '\n' then ['\\', 'n']
  else if c = '\r' then ['\\', 'r']
  else if c = '\t' then ['\\', 't']
  else if 32 ≤ c.toNat && c.toNat < 127 then [c]
  else byNumber c

/-- The text in printable ASCII, without quotes around it. -/
def asciiEscaped (s : String) : String := String.ofList (s.toList.flatMap asciiChar)

/-- Items of a list, shown between brackets. -/
def bracketed (items : List String) : String := "[" ++ ", ".intercalate items ++ "]"

end QueryLoom.Text
