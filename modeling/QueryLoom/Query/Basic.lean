/-
  QueryLoom/Query/Basic.lean
  ==========================
  **The query tree.**  A query is a sequence of rows (a table, or rows filtered, projected,
  ordered or paged), a test whether a sequence has rows, or a scalar expression.  All of
  them are nodes of one tree, because expressions hold queries and queries hold
  expressions; which node may stand where is for the compiler to check.
-/
import QueryLoom.Data.Value
import QueryLoom.Query.Operation
import QueryLoom.Text.Letter

namespace QueryLoom

/-- A parameter that gets its value when the statement is run. -/
structure Parameter where
  name : String
  type : DataType
deriving DecidableEq

/-- What is read from a row or from a value. -/
inductive Member where
  | column (alias? : Option String) (name : String)
  | property (p : Property)
deriving DecidableEq

/-- A node of the query tree. -/
inductive Query where
  | source (table : String) (alias? : Option String)
  | filter (rows predicate : Query)
  | project (rows : Query) (columns : List (String × Query))
  | skip (rows count : Query)
  | take (rows count : Query)
  | orderBy (rows key : Query) (direction : Direction)
  | any (rows : Query) (predicate? : Option Query)
  | member (receiver? : Option Query) (member : Member)
  | call (receiver? : Option Query) (method : Method) (args : List Query)
  | constant (value : Value)
  | parameter (p : Parameter)
  | binary (left : Query) (op : BinaryOperator) (right : Query)
  | unary (op : UnaryOperator) (operand : Query)

namespace Query

instance : Inhabited Query := ⟨constant .null⟩

/-- The kind of a node, as messages name it. -/
def kind : Query → String
  | source .. => "Source"
  | filter .. => "Filter"
  | project .. => "Project"
  | skip .. => "Skip"
  | take .. => "Take"
  | orderBy .. => "OrderBy"
  | any .. => "Any"
  | member .. => "MemberAccess"
  | call .. => "MethodCall"
  | constant _ => "Constant"
  | parameter _ => "Parameter"
  | binary .. => "BinaryOp"
  | unary .. => "UnaryOp"

/-- Whether the node stands for rows and not for a value. -/
def isSequence : Query → Bool
  | source .. | filter .. | project .. | skip .. | take .. | orderBy .. => true
  | _ => false

/-! ### Sources -/

/-- The alias of a table: the one given, else the first letter of the table in lower case,
    and `t` for a table that does not start with a letter. -/
def sourceAlias (table : String) (alias? : Option String) : String :=
  alias?.getD <| match table.toList with
    | c :: _ => if Text.isLetter c then String.ofList (Text.lower c) else "t"
    | [] => "t"

mutual

/-- The aliases of all tables in the tree, from left to right. -/
def sourceAliases : Query → List String
  | source table alias? => [sourceAlias table alias?]
  | filter rows predicate => rows.sourceAliases ++ predicate.sourceAliases
  | project rows columns => rows.sourceAliases ++ columnAliases columns
  | skip rows count => rows.sourceAliases ++ count.sourceAliases
  | take rows count => rows.sourceAliases ++ count.sourceAliases
  | orderBy rows key _ => rows.sourceAliases ++ key.sourceAliases
  | any rows predicate? => rows.sourceAliases ++ optionAliases predicate?
  | member receiver? _ => optionAliases receiver?
  | call receiver? _ args => optionAliases receiver? ++ listAliases args
  | constant _ => []
  | parameter _ => []
  | binary left _ right => left.sourceAliases ++ right.sourceAliases
  | unary _ operand => operand.sourceAliases

/-- The aliases of a node that may be missing. -/
def optionAliases : Option Query → List String
  | none => []
  | some q => q.sourceAliases

/-- The aliases of a list of nodes. -/
def listAliases : List Query → List String
  | [] => []
  | q :: rest => q.sourceAliases ++ listAliases rest

/-- The aliases of the columns of a projection. -/
def columnAliases : List (String × Query) → List String
  | [] => []
  | (_, q) :: rest => q.sourceAliases ++ columnAliases rest

end

/-! ### Building queries -/

/-- A column of the innermost row. -/
def column (name : String) : Query := member none (.column none name)

/-- A column of the source with an alias. -/
def columnOf (source name : String) : Query := member none (.column (some source) name)

/-- The null. -/
def null : Query := constant .null

/-- A text. -/
def text (s : String) : Query := constant (.string s)

/-- A property of a value. -/
def property (receiver : Query) (p : Property) : Query := member (some receiver) (.property p)

/-- A property that needs no value. -/
def global (p : Property) : Query := member none (.property p)

/-- The two sides are equal. -/
def equal (left right : Query) : Query := binary left .equal right

/-- The two sides are not equal. -/
def notEqual (left right : Query) : Query := binary left .notEqual right

/-- Both conditions hold. -/
def and (left right : Query) : Query := binary left .and right

/-- One of the conditions holds. -/
def or (left right : Query) : Query := binary left .or right

/-- The condition does not hold. -/
def not (operand : Query) : Query := unary .not operand

end Query

end QueryLoom
