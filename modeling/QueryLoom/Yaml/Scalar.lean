/-
  QueryLoom/Yaml/Scalar.lean
  ==========================
  **Reading scalars off a YAML text**: plain, quoted, and block scalars.  Each reader starts
  at the first character of the scalar and gives its text and the position after it.

  A run of blanks and line breaks within a scalar is a `Gap`: without a break it stands for
  itself, one break is folded into a space, and of more breaks the first is dropped.

  The fuel of a reader is the number of characters left, and every round takes one.
-/
import QueryLoom.Yaml.Token

namespace QueryLoom.Yaml

/-! ### Gaps -/

/-- Blanks and line breaks between two words of a scalar. -/
structure Gap where
  blanks : List Char := []
  /-- Whether there was a line break. -/
  broken : Bool := false
  /-- The first break, unless it was escaped. -/
  first? : Option Char := none
  more : List Char := []

namespace Gap

/-- What a gap stands for. -/
def text (g : Gap) : List Char :=
  if !g.broken then g.blanks
  else match g.first? with
    | some '\n' => if g.more.isEmpty then [' '] else g.more
    | first? => first?.toList ++ g.more

/-- Reads on in a gap.  A tab may not stand before the column `least` of a new line. -/
def read? (least : Int) : Nat → Cursor → Gap → Option (Gap × Cursor)
  | 0, c, g => some (g, c)
  | fuel + 1, c, g =>
    match c.lineBreak? with
    | some (b, after) =>
      if g.broken then read? least fuel after { g with more := g.more ++ [b] }
      else read? least fuel after { g with blanks := [], broken := true, first? := some b }
    | none =>
      match c.next with
      | some ch =>
        if !isSpace ch then some (g, c)
        else if !g.broken then
          read? least fuel (c.skip 1) { g with blanks := g.blanks ++ [ch] }
        else if ch = '\t' && (c.column : Int) < least then none
        else read? least fuel (c.skip 1) g
      | none => some (g, c)

end Gap

/-! ### Plain scalars -/

/-- The characters that end a plain scalar in a flow collection. -/
def isFlowEnd (c : Char) : Bool :=
  c = ',' || c = '[' || c = ']' || c = '\x7b' || c = '\x7d'

/-- The number of characters of a word of a plain scalar.  In a flow collection a colon may
    not touch an indicator. -/
def plainWord? (flow : Bool) : List Char → Option Nat
  | [] => some 0
  | c :: rest =>
    if isGap c then some 0
    else if c = ':' && flow && rest.head?.any fun d => isFlowEnd d || d = '?' then none
    else if (c = ':' && endsWord rest.head?) || (flow && isFlowEnd c) then some 0
    else (plainWord? flow rest).map (· + 1)

/-- A scalar that has been read: its text, whether its last line was left, and the position
    after it. -/
structure Scanned where
  text : List Char
  broken : Bool
  cursor : Cursor

/-- Reads a plain scalar with words from columns that are at least `least`. -/
def plain? (flow : Bool) (least : Int) : Nat → List Char → Gap → Cursor → Option Scanned
  | 0, text, gap, c => some ⟨text, gap.broken, c⟩
  | fuel + 1, text, gap, c => do
    if c.atMark || c.next == some '#' then return ⟨text, gap.broken, c⟩
    let n ← plainWord? flow c.rest
    let (text, gap) := if n = 0 then (text, gap) else (text ++ gap.text ++ c.rest.take n, {})
    let c := c.skip n
    if !(c.next.any isGap) then return ⟨text, gap.broken, c⟩
    let (gap, c) ← gap.read? least c.rest.length c
    if !flow && (c.column : Int) < least then return ⟨text, gap.broken, c⟩
    plain? flow least fuel text gap c

/-! ### Quoted scalars -/

/-- The character of an escape without a number. -/
def escaped? (c : Char) : Option Char :=
  match c with
  | '0' => some (Char.ofNat 0)
  | 'a' => some (Char.ofNat 7)
  | 'b' => some (Char.ofNat 8)
  | 't' | '\t' => some '\t'
  | 'n' => some '\n'
  | 'v' => some (Char.ofNat 11)
  | 'f' => some (Char.ofNat 12)
  | 'r' => some '\r'
  | 'e' => some (Char.ofNat 27)
  | ' ' | '"' | '/' | '\\' => some c
  | 'N' => some (Char.ofNat 0x85)
  | '_' => some (Char.ofNat 0xA0)
  | 'L' => some (Char.ofNat 0x2028)
  | 'P' => some (Char.ofNat 0x2029)
  | _ => none

/-- The number of digits of an escape with a number. -/
def escapeLength? (c : Char) : Option Nat :=
  match c with
  | 'x' => some 2
  | 'u' => some 4
  | 'U' => some 8
  | _ => none

/-- Reads the escape after a backslash. -/
def escape? (c : Cursor) : Option (Char × Cursor) := do
  let kind ← c.next
  match escapeLength? kind with
  | none => return (← escaped? kind, c.skip 1)
  | some n =>
    let digits := (c.rest.drop 1).take n
    let code ← Text.hexOf? digits
    if digits.length = n && code.isValidChar then return (Char.ofNat code, c.skip (n + 1))
    else none

/-- Reads a quoted scalar from after its first quote.  The words of a line are read character
    by character, and `gap` is what lies between the text so far and the next word. -/
def quoted? (quote : Char) : Nat → List Char → Gap → Cursor → Option Scanned
  | 0, _, _, _ => none
  | fuel + 1, text, gap, c => do
    if c.atMark then none
    let ch ← c.next
    if isGap ch || gap.broken then
      let (gap, c) ← gap.read? (-1) c.rest.length c
      quoted? quote fuel (text ++ gap.text) {} c
    else if quote = '\'' && ch = '\'' && c.ahead 1 == some '\'' then
      quoted? quote fuel (text ++ ['\'']) {} (c.skip 2)
    else if ch = quote then return ⟨text, false, c.skip 1⟩
    else if quote = '"' && ch = '\\' then
      match (c.skip 1).lineBreak? with
      | some (_, after) => quoted? quote fuel text { broken := true } after
      | none =>
        let (ch, c) ← escape? (c.skip 1)
        quoted? quote fuel (text ++ [ch]) {} c
    else quoted? quote fuel (text ++ [ch]) {} (c.skip 1)

/-! ### Block scalars -/

/-- What happens to the line breaks at the end of a block scalar. -/
inductive Chomping where
  | clip
  | strip
  | keep
deriving DecidableEq, Repr

/-- The header of a block scalar. -/
structure BlockHeader where
  chomping : Chomping
  /-- The indentation relative to the parent's, or zero if the text is to show it. -/
  increment : Nat

/-- Reads a chomping indicator. -/
def chomping? (c : Cursor) : Option (Chomping × Cursor) :=
  match c.next with
  | some '+' => some (.keep, c.skip 1)
  | some '-' => some (.strip, c.skip 1)
  | _ => none

/-- Reads an indentation indicator, which may be missing but not zero. -/
def increment? (c : Cursor) : Option (Nat × Cursor) :=
  match c.next with
  | some ch =>
    if ch = '0' then none
    else if ch.isDigit then some (Text.digitValue ch, c.skip 1)
    else some (0, c)
  | none => some (0, c)

/-- Reads the header of a block scalar and the rest of its line. -/
def blockHeader? (c : Cursor) : Option (BlockHeader × Cursor) := do
  match chomping? c with
  | some (chomping, c) =>
    let (increment, c) ← increment? c
    return (⟨chomping, increment⟩, ← c.endLine?)
  | none =>
    let (increment, c) ← increment? c
    let (chomping, c) := if increment = 0 then (Chomping.clip, c)
      else (chomping? c).getD (.clip, c)
    return (⟨chomping, increment⟩, ← c.endLine?)

/-- Reads empty lines of a block scalar.  An indentation of zero is not known yet.  Gives the
    breaks, the greatest column that was reached, and the position of the next text. -/
def blockBreaks? (indent : Nat) :
    Nat → List Char → Nat → Cursor → Option (List Char × Nat × Cursor)
  | 0, breaks, most, c => some (breaks, most, c)
  | fuel + 1, breaks, most, c =>
    let spaces := (c.rest.takeWhile (· == ' ')).length
    let c := c.skip (if indent = 0 then spaces else min spaces (indent - c.column))
    let most := max most c.column
    if (indent = 0 || c.column < indent) && c.next == some '\t' then none
    else match c.lineBreak? with
      | some (b, after) => blockBreaks? indent fuel (breaks ++ [b]) most after
      | none => some (breaks, most, c)

/-- What stands at the end of a line of a block scalar before the next line is added. -/
structure BlockText where
  text : List Char := []
  /-- The break after the last line. -/
  last : List Char := []
  /-- The breaks of empty lines after it. -/
  empty : List Char := []
  /-- Whether the last line started with a blank. -/
  blank : Bool := false

/-- Adds a line.  A folded scalar joins two lines by a space, or by the breaks of the empty
    lines between them, unless one of them starts with a blank. -/
def BlockText.add (t : BlockText) (folded blank : Bool) (line : List Char) : List Char :=
  let joint :=
    if folded && t.last == ['\n'] && !t.blank && !blank then
      if t.empty.isEmpty then [' '] else []
    else t.last
  t.text ++ joint ++ t.empty ++ line

/-- Reads the lines of a block scalar. -/
def blockLines? (folded : Bool) (indent : Nat) :
    Nat → BlockText → Cursor → Option (BlockText × Cursor)
  | 0, t, c => some (t, c)
  | fuel + 1, t, c =>
    if c.column = indent && !c.rest.isEmpty then do
      let blank := c.next.any isSpace
      let (line, c) := c.run fun ch => !isBreak ch
      let text := t.add folded blank line
      let (last, c) := match c.lineBreak? with
        | some (b, c) => ([b], c)
        | none => ([], c)
      let (empty, _, c) ← blockBreaks? indent c.rest.length [] 0 c
      blockLines? folded indent fuel ⟨text, last, empty, blank⟩ c
    else some (t, c)

/-- Reads a block scalar from after its indicator, in a block with the indentation `parent`. -/
def block? (folded : Bool) (parent : Int) (c : Cursor) : Option Scanned := do
  let (header, c) ← blockHeader? c
  let fuel := c.rest.length + 1
  let least := (max parent 0).toNat + header.increment
  let known := if header.increment = 0 then 0 else least
  let (empty, most, c) ← blockBreaks? known fuel [] 0 c
  let indent := if known = 0 then max most (max (parent + 1).toNat 1) else known
  let (t, c) ← blockLines? folded indent fuel { empty } c
  let tail := match header.chomping with
    | .strip => []
    | .clip => t.last
    | .keep => t.last ++ t.empty
  return ⟨t.text ++ tail, true, c⟩

end QueryLoom.Yaml
