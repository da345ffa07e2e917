/-
  QueryLoom/Sql/Mapping.lean
  ==========================
  **What properties and methods mean in SQL.**  For an operation with a number of arguments
  there is at most one `Mapping`: a template for its operands, an adjustment of an operand
  or of the result, and the feature that it needs.  The operands are the receiver, if
  there is one, and then the arguments.

  Indices count from zero in queries and from one in SQL, so the adjustments shift them
  on the way in and on the way out.
-/
import QueryLoom.Sql.Basic
import QueryLoom.CompileError

namespace QueryLoom.Sql

/-- The shape of the SQL for an operation. -/
inductive Template where
  | function (name : String)
  | trim (side? : Option TrimSide)
  | substring
  | extract (part : DatePart)
  | cast (type : CastType)
  | keyword (word : String)
  | position
  /-- The second operand has a place in the first. -/
  | positionFound
  | startingWith
  | endsWith
  /-- The operand is null or, trimmed if so wanted, empty. -/
  | isNullOrEmpty (trimmed : Bool)
  | dateAdd (part : DatePart)
  | utcTimestamp
deriving DecidableEq, Repr

/-- What happens to an operand or to the result besides. -/
inductive Adjustment where
  | none
  | oneBasedStart
  | incrementResult
  | decrementResult
  | truncateResult
deriving DecidableEq, Repr

/-- The SQL for an operation with a number of arguments. -/
structure Mapping where
  operation : Operation
  arity : Nat
  hasReceiver : Bool
  template : Template
  adjustment : Adjustment
  requires? : Option Feature
deriving DecidableEq, Repr

/-! ### The table -/

namespace Mapping

/-- A property of a value. -/
def ofProperty (p : Property) (t : Template) : Mapping := ⟨.property p, 0, true, t, .none, none⟩

/-- A property that needs no value. -/
def ofGlobal (p : Property) (t : Template) : Mapping := ⟨.property p, 0, false, t, .none, none⟩

/-- A method of a value. -/
def ofMethod (m : Method) (arity : Nat) (t : Template) : Mapping :=
  ⟨.method m, arity, true, t, .none, none⟩

/-- A method that needs no value. -/
def ofFunction (m : Method) (arity : Nat) (t : Template) : Mapping :=
  ⟨.method m, arity, false, t, .none, none⟩

/-- The mapping with an adjustment. -/
def adjusted (x : Mapping) (a : Adjustment) : Mapping := { x with adjustment := a }

/-- The mapping for servers with a feature. -/
def requiring (x : Mapping) (f : Feature) : Mapping := { x with requires? := some f }

/-- Every mapping. -/
def all : List Mapping :=
  [ofProperty .length (.function "CHAR_LENGTH"),
    ofMethod .trim 0 (.trim none),
    ofMethod .trim 1 (.trim (some .both)),
    ofMethod .trimStart 0 (.trim (some .leading)),
    ofMethod .trimStart 1 (.trim (some .leading)),
    ofMethod .trimEnd 0 (.trim (some .trailing)),
    ofMethod .trimEnd 1 (.trim (some .trailing)),
    (ofMethod .substring 1 .substring).adjusted .oneBasedStart,
    (ofMethod .substring 2 .substring).adjusted .oneBasedStart,
    ofMethod .toUpper 0 (.function "UPPER"),
    ofMethod .toLower 0 (.function "LOWER"),
    ofMethod .contains 1 .positionFound,
    ofMethod .startsWith 1 .startingWith,
    ofMethod .endsWith 1 .endsWith,
    (ofMethod .indexOf 1 .position).adjusted .decrementResult,
    ofMethod .replace 2 (.function "REPLACE"),
    ofFunction .isNullOrEmpty 1 (.isNullOrEmpty false),
    ofFunction .isNullOrWhiteSpace 1 (.isNullOrEmpty true),
    ofProperty .year (.extract .year),
    ofProperty .month (.extract .month),
    ofProperty .day (.extract .day),
    ofProperty .hour (.extract .hour),
    ofProperty .minute (.extract .minute),
    (ofProperty .second (.extract .second)).adjusted .truncateResult,
    ((ofProperty .millisecond (.extract .millisecond)).adjusted .truncateResult).requiring
      .millisecondExtract,
    (ofProperty .dayOfYear (.extract .yearDay)).adjusted .incrementResult,
    ofProperty .dayOfWeek (.extract .weekDay),
    ofProperty .date (.cast .date),
    ofProperty .timeOfDay (.cast .time),
    ofGlobal .now (.keyword "CURRENT_TIMESTAMP"),
    (ofGlobal .utcNow .utcTimestamp).requiring .timeZones,
    ofGlobal .today (.keyword "CURRENT_DATE"),
    ofMethod .addYears 1 (.dateAdd .year),
    ofMethod .addMonths 1 (.dateAdd .month),
    ofMethod .addDays 1 (.dateAdd .day),
    ofMethod .addHours 1 (.dateAdd .hour),
    ofMethod .addMinutes 1 (.dateAdd .minute),
    ofMethod .addSeconds 1 (.dateAdd .second)]

/-- The mapping of an operation with a number of arguments. -/
def find? (op : Operation) (arity : Nat) : Option Mapping :=
  all.find? fun x => x.operation == op && x.arity == arity

/-- The mapping of an operation, or the error that there is none. -/
def find (op : Operation) (arity : Nat) : Except CompileError Mapping :=
  match find? op arity with
  | some x => .ok x
  | none => .error (.unmapped op arity)

end Mapping

/-! ### Building SQL -/

/-- The template with its operands filled in, if their number is right. -/
def Template.build? : Template → List Expr → Option Expr
  | function name, operands => some (.function name operands)
  | trim side?, [text] => some (.trim side? none text)
  | trim side?, [text, chars] => some (.trim side? (some chars) text)
  | substring, [text, start] => some (.substring text start none)
  | substring, [text, start, length] => some (.substring text start (some length))
  | extract part, [operand] => some (.extract part operand)
  | cast type, [operand] => some (.cast operand type)
  | keyword word, [] => some (.keyword word)
  | position, [haystack, needle] => some (.position needle haystack)
  | positionFound, [haystack, needle] =>
    some (.binary (.position needle haystack) .greater (.int 0))
  | startingWith, [text, start] => some (.binary text .startingWith start)
  | endsWith, [text, suffix] =>
    some (.binary (.function "RIGHT" [text, .function "CHAR_LENGTH" [suffix]]) .equal suffix)
  | isNullOrEmpty trimmed, [text] =>
    let compared := if trimmed then Expr.trim none none text else text
    some (.binary (.isNull text false) .or (.binary compared .equal (.literal (.string ""))))
  | dateAdd part, [operand, amount] => some (.dateAdd amount part operand)
  | utcTimestamp, [] => some (.cast (.atTimeZone (.keyword "CURRENT_TIMESTAMP") "UTC") .timestamp)
  | _, _ => none

/-- The integer after an index that is not negative, as a literal's value.  It has 32 bits
    when the index has at most 32 and there is room, else 64, and stops at the greatest. -/
def successor (index : Value) (n : Int) : Value :=
  match index with
  | .int64 _ => .int64 (.ofInt (min (n + 1) ((Number.twoTo 63 : Int) - 1)))
  | _ => if n < (Number.twoTo 31 : Int) - 1 then .int32 (.ofInt (n + 1)) else .int64 (.ofInt (n + 1))

/-- The start of a text counted from one, from a start counted from zero. -/
def oneBased (start : Expr) : Except CompileError Expr :=
  match start with
  | .literal v =>
    match v.integer? with
    | none => .error (.startNotInteger v)
    | some n => if n < 0 then .error (.startNegative n) else .ok (.literal (successor v n))
  | start => .ok (.binary start .add (.int 1))

/-- The operands with an adjustment that applies to one of them. -/
def Adjustment.operands (a : Adjustment) (caps : Capabilities) (operands : List Expr) :
    Except CompileError (List Expr) :=
  match a, operands with
  | oneBasedStart, text :: start :: rest =>
    if caps.oneBasedSubstring then (oneBased start).map fun start => text :: start :: rest
    else .ok operands
  | _, _ => .ok operands

/-- The result with an adjustment that applies to it. -/
def Adjustment.result (a : Adjustment) (e : Expr) : Expr :=
  match a with
  | incrementResult => .binary e .add (.int 1)
  | decrementResult => .binary e .subtract (.int 1)
  | truncateResult => .function "TRUNC" [e]
  | none | oneBasedStart => e

/-- The SQL for the operation on a receiver and arguments. -/
def Mapping.apply (x : Mapping) (caps : Capabilities) (receiver? : Option Expr)
    (args : List Expr) : Except CompileError Expr := do
  if let some feature := x.requires? then caps.require feature
  if receiver?.isSome != x.hasReceiver then
    throw (if x.hasReceiver then .receiverMissing x.operation else .receiverGiven x.operation)
  if args.length != x.arity then throw (.unmapped x.operation args.length)
  let operands ← x.adjustment.operands caps (receiver?.toList ++ args)
  match x.template.build? operands with
  | some e => return x.adjustment.result e
  | none => throw (.unmapped x.operation x.arity)

end QueryLoom.Sql
