/-
  QueryLoom/Sql/Piece.lean
  ========================
  **The pieces that the text of a statement is made of**, in the order in which they are
  read: words, symbols, numbers, single spaces, names and strings still to be quoted, and
  the places where a parameter or a constant is bound.  What the server cannot
  represent is a piece of its own, so that the first one in the text is the one reported.

  Pieces do not depend on the style of placeholders, which is settled when they are
  written.
-/
import QueryLoom.Sql.Basic
import QueryLoom.CompileError

namespace QueryLoom.Sql

/-- A piece of a statement's text. -/
inductive Piece where
  | word (w : String)
  | symbol (s : String)
  | number (digits : String)
  | space
  | name (id : String)
  | string (s : String)
  | parameter (p : Parameter)
  | constant (v : Value)
  | refused (e : CompileError)
deriving DecidableEq

namespace Piece

/-- Words with a space between them. -/
def phrase (ws : List String) : List Piece := (ws.map word).intersperse space

/-- A list of parts with a comma and a space between them. -/
def listed (parts : List (List Piece)) : List Piece :=
  [symbol ",", space].intercalate parts

/-- A part between parentheses. -/
def parenthesized (ps : List Piece) : List Piece := symbol "(" :: ps ++ [symbol ")"]

/-- The call of a function. -/
def call (name : String) (args : List Piece) : List Piece := word name :: parenthesized args

/-- The text of a piece that is written as it stands. -/
def verbatim? : Piece → Option String
  | word w => some w
  | symbol s => some s
  | number ds => some ds
  | space => some " "
  | _ => none

/-- Whether the text of the pieces is empty. -/
def areSilent (ps : List Piece) : Bool := ps.all fun p => p.verbatim? == some ""

/-- The parts whose text is not empty, with a space between them. -/
def spaced (parts : List (List Piece)) : List Piece :=
  [space].intercalate (parts.filter fun ps => !areSilent ps)

/-- Whether the text of the pieces starts with a minus. -/
def startWithMinus : List Piece → Bool
  | [] => false
  | p :: rest => match p.verbatim? with
    | some "" => startWithMinus rest
    | some s => s.toList.head? == some '-'
    | none => false

end Piece

/-! ### Literals -/

/-- A number with its sign. -/
def signed (negative : Bool) (magnitude : String) : List Piece :=
  if negative then [.symbol "-", .number magnitude] else [.number magnitude]

/-- An integer. -/
def integer (n : Int) : List Piece := signed (n < 0) (toString n.natAbs)

/-- A word and a string with a space between them. -/
def labelled (word text : String) : List Piece := [.word word, .space, .string text]

/-- The date as a server reads it, which knows the years from 1 to 9999. -/
def dateText? (d : Calendar.Date) : Except CompileError String :=
  if 1 ≤ d.year && d.year ≤ 9999 then .ok d.write else .error (.yearOutOfRange d)

/-- The time as a server reads it, down to a ten-thousandth of a second. -/
def timeText (t : Calendar.Time) : String :=
  t.clock ++ "." ++ Text.padded 4 (min (t.nanos / 100000) 9999)

/-- A literal of a date, a time or both, unless its date is out of range. -/
def dated (word : String) (text? : Except CompileError String) : List Piece :=
  match text? with
  | .ok text => labelled word text
  | .error e => [.refused e]

/-- A floating-point number. -/
def binaryNumber {f : Number.BinaryFormat} (v : Value) (x : Number.Binary f) : List Piece :=
  if x.isFinite then
    let magnitude : Number.Binary f := { x with negative := false }
    signed x.negative (magnitude.write Number.plainLayout)
  else [.refused (.notFinite v)]

/-- A constant, in the text where the server has a way to write it, else bound. -/
def literal (caps : Capabilities) (v : Value) : List Piece :=
  match v with
  | .null => [.word "NULL"]
  | .string s => [.string s]
  | .boolean b =>
    if caps.booleanType then [.word (if b then "TRUE" else "FALSE")]
    else [.number (if b then "1" else "0")]
  | .int16 n => integer n.toInt
  | .int32 n => integer n.toInt
  | .int64 n => integer n.toInt
  | .single x => binaryNumber v x
  | .double x => binaryNumber v x
  | .decimal d => signed d.negative (Number.Decimal.write { d with negative := false })
  | .date d => dated "DATE" (dateText? d)
  | .time t => labelled "TIME" (timeText t)
  | .dateTime dt =>
    dated "TIMESTAMP" ((dateText? dt.date).map fun date => date ++ " " ++ timeText dt.time)
  | .uuid u =>
    if caps.charToUuid then Piece.call "CHAR_TO_UUID" [.string u.write] else [.constant v]
  | .binary _ => [.constant v]

/-- Whether a constant is written with a minus. -/
def isNegative : Value → Bool
  | .int16 n => n.toInt < 0
  | .int32 n => n.toInt < 0
  | .int64 n => n.toInt < 0
  | .single x => x.negative
  | .double x => x.negative
  | .decimal d => d.negative
  | _ => false

/-! ### Precedence -/

/-- How tightly an operator binds. -/
abbrev Precedence := Nat

namespace Precedence

def or : Precedence := 1
def and : Precedence := 2
def not : Precedence := 3
def comparison : Precedence := 4
def concat : Precedence := 5
def additive : Precedence := 6
def multiplicative : Precedence := 7
def negate : Precedence := 8
def atom : Precedence := 9

end Precedence

namespace BinaryOperator

/-- How tightly an operator binds.  The remainder is written as a function. -/
def precedence : BinaryOperator → Precedence
  | or => Precedence.or
  | and => Precedence.and
  | equal | notEqual | greater | greaterOrEqual | less | lessOrEqual | startingWith =>
    Precedence.comparison
  | concat => Precedence.concat
  | add | subtract => Precedence.additive
  | multiply | divide => Precedence.multiplicative
  | modulo => Precedence.atom

/-- The operators whose operands can be grouped either way. -/
def isAssociative : BinaryOperator → Bool
  | add | multiply | concat | and | or => true
  | _ => false

/-- How an operator is written. -/
def pieces : BinaryOperator → List Piece
  | add => [.symbol "+"]
  | subtract => [.symbol "-"]
  | multiply => [.symbol "*"]
  | divide => [.symbol "/"]
  | modulo => [.symbol "%"]
  | concat => [.symbol "||"]
  | and => [.word "AND"]
  | or => [.word "OR"]
  | equal => [.symbol "="]
  | notEqual => [.symbol "<>"]
  | greater => [.symbol ">"]
  | greaterOrEqual => [.symbol ">="]
  | less => [.symbol "<"]
  | lessOrEqual => [.symbol "<="]
  | startingWith => Piece.phrase ["STARTING", "WITH"]

end BinaryOperator

namespace Expr

/-- How tightly the outermost operator of an expression binds.  A negative constant is like
    a negation. -/
def precedence : Expr → Precedence
  | binary _ op _ => op.precedence
  | unary .not _ => Precedence.not
  | unary .negate _ => Precedence.negate
  | isNull .. => Precedence.comparison
  | literal v => if isNegative v then Precedence.negate else Precedence.atom
  | _ => Precedence.atom

/-- Whether the expression applies the given operator. -/
def applies (op : BinaryOperator) : Expr → Bool
  | binary _ o _ => o == op
  | _ => false

/-- The pieces of an operand, between parentheses if it binds less tightly than `least`. -/
def guarded (least : Precedence) (e : Expr) (ps : List Piece) : List Piece :=
  if e.precedence < least then Piece.parenthesized ps else ps

end Expr

/-- The precedence that a left operand needs.  Comparisons do not chain. -/
def BinaryOperator.leftLeast (op : BinaryOperator) : Precedence :=
  if op.precedence = Precedence.comparison then op.precedence + 1 else op.precedence

/-- The precedence that a right operand needs: more than the operator's own, except where
    the grouping does not matter. -/
def BinaryOperator.rightLeast (op : BinaryOperator) (right : Expr) : Precedence :=
  if right.applies op && op.isAssociative then op.precedence else op.precedence + 1

/-! ### Words -/

/-- The word for the ends that are trimmed. -/
def TrimSide.word : TrimSide → String
  | both => "BOTH"
  | leading => "LEADING"
  | trailing => "TRAILING"

/-- The word for a part of a date or a time. -/
def DatePart.word : DatePart → String
  | year => "YEAR"
  | month => "MONTH"
  | day => "DAY"
  | hour => "HOUR"
  | minute => "MINUTE"
  | second => "SECOND"
  | millisecond => "MILLISECOND"
  | yearDay => "YEARDAY"
  | weekDay => "WEEKDAY"

/-- The word for a type. -/
def CastType.word : CastType → String
  | date => "DATE"
  | time => "TIME"
  | timestamp => "TIMESTAMP"

/-- The word for a direction. -/
def directionWord : Direction → String
  | .ascending => "ASC"
  | .descending => "DESC"

/-- A word with a space on either side. -/
def between (w : String) : List Piece := [.space, .word w, .space]

/-! ### Trees as pieces -/

mutual

/-- The pieces of an expression. -/
def Expr.pieces (caps : Capabilities) : Expr → List Piece
  | .column source name => [.name source, .symbol ".", .name name]
  | .allColumns source => [.name source, .symbol ".", .symbol "*"]
  | .literal v => literal caps v
  | .parameter p => [.parameter p]
  | .keyword w => [.word w]
  | .function name args => Piece.call name (Piece.listed (listPieces caps args))
  | .trim side? chars? text =>
    let side := side?.toList.map fun side => [Piece.word side.word]
    let spec := [Piece.space].intercalate (side ++ optionPieces caps chars?)
    let text := text.pieces caps
    Piece.call "TRIM"
      (if side?.isNone && chars?.isNone then text else spec ++ between "FROM" ++ text)
  | .substring text start length? =>
    let length := (optionPieces caps length?).flatMap fun ps => between "FOR" ++ ps
    Piece.call "SUBSTRING" (text.pieces caps ++ between "FROM" ++ start.pieces caps ++ length)
  | .extract part operand =>
    Piece.call "EXTRACT" (.word part.word :: between "FROM" ++ operand.pieces caps)
  | .cast operand type =>
    Piece.call "CAST" (operand.pieces caps ++ between "AS" ++ [.word type.word])
  | .position needle haystack =>
    Piece.call "POSITION" (needle.pieces caps ++ between "IN" ++ haystack.pieces caps)
  | .dateAdd amount part operand =>
    Piece.call "DATEADD" (amount.guarded Precedence.atom (amount.pieces caps)
      ++ .space :: .word part.word :: between "TO" ++ operand.pieces caps)
  | .atTimeZone operand zone =>
    operand.guarded Precedence.atom (operand.pieces caps)
      ++ .space :: Piece.phrase ["AT", "TIME", "ZONE"] ++ [.space, .string zone]
  | .binary left op right =>
    if op = .modulo then
      Piece.call "MOD" (Piece.listed [left.pieces caps, right.pieces caps])
    else
      left.guarded op.leftLeast (left.pieces caps)
        ++ .space :: op.pieces
        ++ .space :: right.guarded (op.rightLeast right) (right.pieces caps)
  | .unary .not operand =>
    .word "NOT" :: .space :: operand.guarded Precedence.not (operand.pieces caps)
  | .unary .negate operand =>
    -- two minus signs would start a comment
    let inner := operand.guarded Precedence.negate (operand.pieces caps)
    .symbol "-" :: if Piece.startWithMinus inner then Piece.parenthesized inner else inner
  | .isNull operand negated =>
    operand.guarded Precedence.concat (operand.pieces caps)
      ++ .space :: Piece.phrase (if negated then ["IS", "NOT", "NULL"] else ["IS", "NULL"])
  | .case whens otherwise? =>
    let otherwise := (optionPieces caps otherwise?).map fun ps => .word "ELSE" :: .space :: ps
    [Piece.space].intercalate
      ([.word "CASE"] :: whensPieces caps whens ++ otherwise ++ [[.word "END"]])
  | .existsRow rows => .word "EXISTS" :: .space :: Piece.parenthesized (rows.pieces caps)

/-- The pieces of an expression that may be missing: a list of at most one part. -/
def optionPieces (caps : Capabilities) : Option Expr → List (List Piece)
  | none => []
  | some e => [e.pieces caps]

/-- The pieces of each expression in a list. -/
def listPieces (caps : Capabilities) : List Expr → List (List Piece)
  | [] => []
  | e :: rest => e.pieces caps :: listPieces caps rest

/-- The pieces of each branch of a CASE. -/
def whensPieces (caps : Capabilities) : List When → List (List Piece)
  | [] => []
  | ⟨condition, result⟩ :: rest =>
    (.word "WHEN" :: .space :: condition.pieces caps ++ between "THEN" ++ result.pieces caps)
      :: whensPieces caps rest

/-- The pieces of a statement: its clauses in order, those without text left out. -/
def Select.pieces (caps : Capabilities) : Select → List Piece
  | ⟨columns, origin, conditions, ordering, window?⟩ =>
    let conditions := conditionsPieces caps conditions
    let ordering := orderingPieces caps ordering
    Piece.spaced
      [[.word "SELECT"],
        Piece.listed (columnsPieces caps columns),
        .word "FROM" :: .space :: origin.pieces caps,
        if conditions.isEmpty then []
        else .word "WHERE" :: .space :: (between "AND").intercalate conditions,
        if ordering.isEmpty then []
        else Piece.phrase ["ORDER", "BY"] ++ .space :: Piece.listed ordering,
        windowPieces caps window?]

/-- The pieces of each selected column. -/
def columnsPieces (caps : Capabilities) : List Column → List (List Piece)
  | [] => []
  | ⟨e, alias?⟩ :: rest =>
    (e.pieces caps ++ alias?.toList.flatMap fun label => between "AS" ++ [.name label])
      :: columnsPieces caps rest

/-- The pieces of the origin of rows. -/
def Origin.pieces (caps : Capabilities) : Origin → List Piece
  | .table name source => [.name name, .space, .name source]
  | .derived rows source => Piece.parenthesized (rows.pieces caps) ++ [.space, .name source]
  | .singleRow => [.word "RDB$DATABASE"]

/-- The pieces of each condition. -/
def conditionsPieces (caps : Capabilities) : List Expr → List (List Piece)
  | [] => []
  | e :: rest => e.guarded Precedence.and (e.pieces caps) :: conditionsPieces caps rest

/-- The pieces of each key of an ordering. -/
def orderingPieces (caps : Capabilities) : List OrderKey → List (List Piece)
  | [] => []
  | ⟨e, direction⟩ :: rest =>
    (e.pieces caps ++ [.space, .word (directionWord direction)]) :: orderingPieces caps rest

/-- The pieces of a window. -/
def windowPieces (caps : Capabilities) : Option Window → List Piece
  | none => []
  | some ⟨lower, upper?⟩ =>
    .word "ROWS" :: .space :: Piece.parenthesized (lower.pieces caps)
      ++ (optionPieces caps upper?).flatMap fun ps => between "TO" ++ Piece.parenthesized ps

end

end QueryLoom.Sql
