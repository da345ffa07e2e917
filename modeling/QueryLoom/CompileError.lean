/-
  QueryLoom/CompileError.lean
  ===========================
  **Why a query has no statement.**  An error says what is wrong with the query; its
  category and its wording follow from that.
-/
import QueryLoom.Query.Basic
import QueryLoom.Server.Capabilities

namespace QueryLoom

/-- The two operators that page a sequence. -/
inductive PagingOperator where
  | skip
  | take
deriving DecidableEq, Repr

/-- The name of an operator in messages. -/
def PagingOperator.name : PagingOperator → String
  | skip => "Skip"
  | take => "Take"

/-- Why a query cannot be compiled. -/
inductive CompileError where
  | notAQuery (kind : String)
  | notASequence (kind : String)
  | notAScalar (kind : String)
  | lostOrdering
  | nothingToSelect
  | columnOfExpression (column : String)
  | unknownSource (column source : String)
  | noSourceInScope (column : String)
  | receiverMissing (op : Operation)
  | receiverGiven (op : Operation)
  | unmapped (op : Operation) (arity : Nat)
  | unsupported (feature : Feature) (version : Version)
  | startNotInteger (value : Value)
  | startNegative (n : Int)
  | countNotConstant (operator : String) (kind : String)
  | countNotRow (operator : String)
  | countNegative (operator : String) (n : Int)
  | countNotInteger (operator : String) (value : Value)
  | countTyped (operator : String) (p : Parameter)
  | identifierEmpty
  | identifierWithNul (id : String)
  | identifierTooLong (id : String) (version : Version) (most : Nat)
  | notFinite (value : Value)
  | yearOutOfRange (date : Calendar.Date)
deriving DecidableEq

namespace CompileError

/-- The kinds of error that callers tell apart. -/
inductive Category where
  | unsupportedExpression
  | unmappedOperation
  | unsupportedFeature
  | invalidArgument
deriving DecidableEq, Repr

/-- The category of an error. -/
def category : CompileError → Category
  | notAQuery _ | notASequence _ | notAScalar _ | lostOrdering | nothingToSelect
  | columnOfExpression _ | unknownSource .. | noSourceInScope _ | receiverMissing _
  | receiverGiven _ => .unsupportedExpression
  | unmapped .. => .unmappedOperation
  | unsupported .. => .unsupportedFeature
  | startNotInteger _ | startNegative _ | countNotConstant .. | countNotRow _ | countNegative ..
  | countNotInteger .. | countTyped .. | identifierEmpty | identifierWithNul _
  | identifierTooLong .. | notFinite _ | yearOutOfRange _ => .invalidArgument

/-- What an error says, without its category. -/
def detail : CompileError → String
  | notAQuery kind => kind ++ " cannot be used as a query"
  | notASequence kind => kind ++ " cannot be used as a sequence"
  | notAScalar kind => kind ++ " cannot be used as a scalar expression"
  | lostOrdering =>
    "Cannot keep the ordering of a projected query, order by one of its projected columns"
  | nothingToSelect => "Cannot select all columns without a source"
  | columnOfExpression column => "Column \"" ++ column ++ "\" cannot be read from an expression"
  | unknownSource column source =>
    "Column \"" ++ column ++ "\" refers to unknown source \"" ++ source ++ "\""
  | noSourceInScope column => "Column \"" ++ column ++ "\" is not in the scope of a source"
  | receiverMissing op => op.shown ++ " must be invoked on an instance"
  | receiverGiven op => op.shown ++ " cannot be invoked on an instance"
  | unmapped op arity =>
    "No translation registered for " ++ op.shown ++ " with " ++ toString arity ++ " argument(s)"
  | unsupported feature version =>
    feature.name ++ " requires Firebird " ++ feature.since.write
      ++ " or later, the server version is " ++ version.write
  | startNotInteger value => "Substring start index must be an integer, found " ++ value.shown
  | startNegative n => "Substring start index cannot be negative, found " ++ toString n
  | countNotConstant operator kind =>
    operator ++ " count must be an integer constant or parameter, found " ++ kind
  | countNotRow operator => operator ++ " count must be an integer constant or parameter"
  | countNegative operator n => operator ++ " count cannot be negative, found " ++ toString n
  | countNotInteger operator value =>
    operator ++ " count must be an integer, found " ++ value.shown
  | countTyped operator p =>
    operator ++ " count parameter \"" ++ p.name ++ "\" must be an integer, found "
      ++ p.type.shown
  | identifierEmpty => "Identifier cannot be empty"
  | identifierWithNul id =>
    "Invalid identifier: \"" ++ Text.asciiEscaped id ++ "\", cannot contain '\\0' chars"
  | identifierTooLong id version most =>
    "Identifier \"" ++ id ++ "\" is " ++ toString id.length ++ " characters long, Firebird "
      ++ version.write ++ " allows at most " ++ toString most
  | notFinite value => "Cannot represent " ++ value.shown ++ " as a sql literal"
  | yearOutOfRange date =>
    "Date " ++ date.write ++ " is outside the range supported by Firebird"

/-- The message of an error. -/
def message (e : CompileError) : String :=
  match e.category with
  | .unsupportedExpression => "Unsupported expression: " ++ e.detail
  | .unmappedOperation => e.detail
  | .unsupportedFeature => "Unsupported feature: " ++ e.detail
  | .invalidArgument => "Invalid argument: " ++ e.detail

end CompileError

/-- Fails unless the server has the feature. -/
def Capabilities.require (caps : Capabilities) (feature : Feature) : Except CompileError Unit :=
  if caps.supports feature then .ok () else .error (.unsupported feature caps.version)

end QueryLoom
