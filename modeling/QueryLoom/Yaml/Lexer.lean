/-
  QueryLoom/Yaml/Lexer.lean
  =========================
  **Cutting a YAML text into tokens.**  Blocks are opened and closed by indentation, and a
  mapping has no sign of its own in front: a colon turns what came before it into a key.
  So the lexer remembers, for every flow collection that is open and for the block around
  them, where a key may have started.  When a colon comes on the same line, it puts the
  tokens for the key in at that place.

  Reading fails with nothing where the text is not YAML.
-/
import QueryLoom.Yaml.Name
import QueryLoom.Yaml.Scalar

namespace QueryLoom.Yaml

/-- A place where a key may have started. -/
structure KeyStart where
  /-- The number of tokens before it. -/
  tokens : Nat
  line : Nat
  column : Nat
  index : Nat
  /-- Whether nothing but a key can stand there. -/
  required : Bool

/-- What the lexer has read and remembers. -/
structure Lexer where
  cursor : Cursor
  tokens : List Token := []
  /-- The indentations of the open blocks, the innermost first. -/
  indents : List Nat := []
  /-- Where a key may have started: in the innermost collection first, in the block last. -/
  keys : List (Option KeyStart) := [none]
  /-- Whether a key may start here. -/
  keyAllowed : Bool := true

namespace Lexer

/-- Whether a flow collection is open. -/
def inFlow (l : Lexer) : Bool := 1 < l.keys.length

/-- The indentation of the innermost block, one less than the first column outside of all. -/
def indent (l : Lexer) : Int :=
  match l.indents with
  | i :: _ => i
  | [] => -1

/-- Adds a token. -/
def add (l : Lexer) (t : Token) : Lexer := { l with tokens := l.tokens ++ [t] }

/-- The lexer after `n` characters. -/
def skip (l : Lexer) (n : Nat) : Lexer := { l with cursor := l.cursor.skip n }

/-- The lexer with the flag whether a key may start. -/
def allowKey (l : Lexer) (allowed : Bool) : Lexer := { l with keyAllowed := allowed }

/-! ### Keys -/

/-- Forgets the key that may have started, which must not be a required one. -/
def dropKey? (l : Lexer) : Option Lexer :=
  match l.keys with
  | some k :: rest => if k.required then none else some { l with keys := none :: rest }
  | _ => some l

/-- Remembers that a key may start here. -/
def startKey? (l : Lexer) : Option Lexer :=
  if !l.keyAllowed then some l
  else do
    let l ← l.dropKey?
    let c := l.cursor
    let required := !l.inFlow && l.indent == c.column
    let k : KeyStart := ⟨l.tokens.length, c.line, c.column, c.index, required⟩
    return { l with keys := some k :: l.keys.drop 1 }

/-- Forgets keys that started on another line or too far back. -/
def dropStale? (l : Lexer) : Option Lexer := do
  let keys ← l.keys.mapM fun k? => match k? with
    | none => some none
    | some k =>
      if k.line < l.cursor.line || k.index + 1024 < l.cursor.index then
        if k.required then none else some none
      else some (some k)
  return { l with keys }

/-! ### Indentation -/

/-- Opens a block at a column that lies further in, with its token at the given place. -/
def openBlock (l : Lexer) (column place : Nat) (start : Token) : Lexer :=
  if l.inFlow || (column : Int) ≤ l.indent then l
  else { l with
    indents := column :: l.indents
    tokens := l.tokens.take place ++ [start] ++ l.tokens.drop place }

/-- The number of blocks that end before a column. -/
def closing (column : Int) (indents : List Nat) : Nat :=
  (indents.takeWhile fun (i : Nat) => column < (i : Int)).length

/-- Closes the blocks that lie further in than the column. -/
def closeBlocks (l : Lexer) (column : Int) : Lexer :=
  if l.inFlow then l
  else
    let n := closing column l.indents
    { l with
      indents := l.indents.drop n
      tokens := l.tokens ++ List.replicate n Token.blockEnd }

/-! ### Between tokens -/

/-- Passes over blanks, comments and line breaks.  A tab may not indent a block. -/
def passGap : Nat → Lexer → Lexer
  | 0, l => l
  | fuel + 1, l =>
    let c := l.cursor
    let c := if c.column = 0 && c.next == some (Char.ofNat 0xFEFF) then c.skip 1 else c
    let tabs := l.inFlow || !l.keyAllowed
    let c := c.pass fun ch => ch = ' ' || (tabs && ch = '\t')
    let c := if c.next == some '#' then c.pass fun ch => !isBreak ch else c
    match c.lineBreak? with
    | some (_, c) => passGap fuel { l with cursor := c, keyAllowed := l.keyAllowed || !l.inFlow }
    | none => { l with cursor := c }

/-- Ends everything that is open in blocks, before a mark between documents. -/
def endDocument? (l : Lexer) : Option Lexer := do
  let l ← (l.closeBlocks (-1)).dropKey?
  return l.allowKey false

/-! ### Tokens -/

/-- Reads a character that is a token by itself, after which a key may start or not. -/
def symbol (l : Lexer) (t : Token) (allowed : Bool) : Lexer := ((l.skip 1).add t).allowKey allowed

/-- Reads the start of a flow collection. -/
def openFlow? (l : Lexer) (t : Token) : Option Lexer := do
  let l ← l.startKey?
  return { l with keys := none :: l.keys }.symbol t true

/-- Reads the end of a flow collection. -/
def closeFlow? (l : Lexer) (t : Token) : Option Lexer := do
  let l ← l.dropKey?
  return { l with keys := if l.inFlow then l.keys.drop 1 else l.keys }.symbol t false

/-- Reads the sign of an item or of a key that says so. -/
def entry? (l : Lexer) (start t : Token) (allowed : Bool) : Option Lexer := do
  if !l.inFlow && !l.keyAllowed then none
  let l := l.openBlock l.cursor.column l.tokens.length start
  let l ← l.dropKey?
  return l.symbol t allowed

/-- Reads a colon.  If a key may have started, it did. -/
def value? (l : Lexer) : Option Lexer :=
  match l.keys with
  | some k :: rest =>
    let l := { l with
      tokens := l.tokens.take k.tokens ++ [Token.key] ++ l.tokens.drop k.tokens
      keys := none :: rest }
    some ((l.openBlock k.column k.tokens .blockMappingStart).symbol .value false)
  | _ =>
    if l.inFlow then some (l.symbol .value false)
    else if !l.keyAllowed then none
    else
      some ((l.openBlock l.cursor.column l.tokens.length .blockMappingStart).symbol .value true)

/-- Adds a scalar. -/
def addScalar (l : Lexer) (s : Scanned) (style : ScalarStyle) (allowed : Bool) : Lexer :=
  { l with cursor := s.cursor, keyAllowed := allowed }.add (.scalar (String.ofList s.text) style)

/-- Reads a quoted scalar. -/
def quotedScalar? (l : Lexer) (quote : Char) : Option Lexer := do
  let l ← l.startKey?
  let s ← quoted? quote (l.cursor.rest.length + 1) [] {} (l.cursor.skip 1)
  return l.addScalar s .quoted false

/-- Reads a block scalar. -/
def blockScalar? (l : Lexer) (folded : Bool) : Option Lexer := do
  let l ← l.dropKey?
  let s ← block? folded l.indent (l.cursor.skip 1)
  return l.addScalar s (if folded then .folded else .literal) true

/-- Reads a plain scalar.  After one of several lines a key may start. -/
def plainScalar? (l : Lexer) : Option Lexer := do
  let l ← l.startKey?
  let s ← plain? l.inFlow (l.indent + 1) (l.cursor.rest.length + 1) [] {} l.cursor
  return l.addScalar s .plain s.broken

/-- Reads something in front of a node: an anchor, an alias or a tag. -/
def property? (l : Lexer) (read : Cursor → Option (Token × Cursor)) : Option Lexer := do
  let l ← l.startKey?
  let (t, c) ← read l.cursor
  return { l with cursor := c, keyAllowed := false }.add t

/-- The characters that no plain scalar starts with. -/
def isIndicator (c : Char) : Bool := "-?:,[]\x7b\x7d#&*!|>'\"%@".toList.contains c || c.toNat = 0x60

/-- Whether a plain scalar starts here. -/
def startsPlain (l : Lexer) (c : Char) : Bool :=
  let after := l.cursor.ahead 1
  (!isGap c && !isIndicator c) || (c = '-' && !after.any isSpace)
    || (!l.inFlow && (c = '?' || c = ':') && !endsWord after)

/-- Reads the next token, which starts with the given character. -/
def step? (l : Lexer) (c : Char) : Option Lexer :=
  let touches := !endsWord (l.cursor.ahead 1)
  let name := fun (make : String → Token) (c : Cursor) =>
    (name? (c.skip 1)).map fun (n, c) => (make n, c)
  if l.cursor.column = 0 && c = '%' then do
    let l ← l.endDocument?
    let (t, c) ← directive? (l.cursor.skip 1)
    return { l with cursor := c }.add t
  else if l.cursor.atMark then do
    let l ← l.endDocument?
    return (l.skip 3).add (if c = '-' then .documentStart else .documentEnd)
  else if c = '[' then l.openFlow? .flowSequenceStart
  else if c = '\x7b' then l.openFlow? .flowMappingStart
  else if c = ']' then l.closeFlow? .flowSequenceEnd
  else if c = '\x7d' then l.closeFlow? .flowMappingEnd
  else if c = ',' then l.dropKey?.map fun l => l.symbol .flowEntry true
  else if c = '-' && !touches then l.entry? .blockSequenceStart .blockEntry true
  else if c = '?' && (l.inFlow || !touches) then l.entry? .blockMappingStart .key (!l.inFlow)
  else if c = ':' && (l.inFlow || !touches) then l.value?
  else if c = '*' then l.property? (name .aliasOf)
  else if c = '&' then l.property? (name .anchor)
  else if c = '!' then l.property? (tag? l.inFlow)
  else if (c = '|' || c = '>') && !l.inFlow then l.blockScalar? (c = '>')
  else if c = '\'' || c = '"' then l.quotedScalar? c
  else if l.startsPlain c then l.plainScalar?
  else none

/-- Reads tokens to the end of the text.  The fuel is the number of characters. -/
def run? : Nat → Lexer → Option (List Token)
  | 0, _ => none
  | fuel + 1, l => do
    let l ← (l.passGap (l.cursor.rest.length + 1)).dropStale?
    let l := l.closeBlocks l.cursor.column
    match l.cursor.next with
    | some c => run? fuel (← l.step? c)
    | none => return (← (l.closeBlocks (-1)).dropKey?).tokens

end Lexer

/-- The tokens of a text, or nothing if it is not YAML. -/
def tokens? (text : String) : Option (List Token) :=
  let cs := text.toList
  if cs.all isAllowed then
    let cs := unifyBreaks cs
    Lexer.run? (cs.length + 1) { cursor := ⟨cs, 0, 0, 0⟩ }
  else none

end QueryLoom.Yaml
