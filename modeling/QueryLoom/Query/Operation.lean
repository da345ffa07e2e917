/-
  QueryLoom/Query/Operation.lean
  ==============================
  **Operations on values**: the properties and methods that queries may use, by name, and
  the binary and unary operators.

  Indices into texts count from zero.
-/
namespace QueryLoom

/-- A property of a value, or one that needs no value. -/
inductive Property where
  | length
  | year
  | month
  | day
  | hour
  | minute
  | second
  | millisecond
  | dayOfYear
  | dayOfWeek
  | date
  | timeOfDay
  | now
  | utcNow
  | today
deriving DecidableEq, Repr

namespace Property

/-- The name of a property. -/
def name : Property → String
  | length => "Length"
  | year => "Year"
  | month => "Month"
  | day => "Day"
  | hour => "Hour"
  | minute => "Minute"
  | second => "Second"
  | millisecond => "Millisecond"
  | dayOfYear => "DayOfYear"
  | dayOfWeek => "DayOfWeek"
  | date => "Date"
  | timeOfDay => "TimeOfDay"
  | now => "Now"
  | utcNow => "UtcNow"
  | today => "Today"

/-- Every property. -/
def all : List Property :=
  [length, year, month, day, hour, minute, second, millisecond, dayOfYear, dayOfWeek, date,
    timeOfDay, now, utcNow, today]

/-- The property with a name. -/
def ofName? (n : String) : Option Property := all.find? fun p => p.name == n

end Property

/-- A method of a value, or one that needs no value. -/
inductive Method where
  | trim
  | trimStart
  | trimEnd
  | substring
  | toUpper
  | toLower
  | contains
  | startsWith
  | endsWith
  | indexOf
  | replace
  | isNullOrEmpty
  | isNullOrWhiteSpace
  | addDays
  | addMonths
  | addYears
  | addHours
  | addMinutes
  | addSeconds
deriving DecidableEq, Repr

namespace Method

/-- The name of a method. -/
def name : Method → String
  | trim => "Trim"
  | trimStart => "TrimStart"
  | trimEnd => "TrimEnd"
  | substring => "Substring"
  | toUpper => "ToUpper"
  | toLower => "ToLower"
  | contains => "Contains"
  | startsWith => "StartsWith"
  | endsWith => "EndsWith"
  | indexOf => "IndexOf"
  | replace => "Replace"
  | isNullOrEmpty => "IsNullOrEmpty"
  | isNullOrWhiteSpace => "IsNullOrWhiteSpace"
  | addDays => "AddDays"
  | addMonths => "AddMonths"
  | addYears => "AddYears"
  | addHours => "AddHours"
  | addMinutes => "AddMinutes"
  | addSeconds => "AddSeconds"

/-- Every method. -/
def all : List Method :=
  [trim, trimStart, trimEnd, substring, toUpper, toLower, contains, startsWith, endsWith, indexOf,
    replace, isNullOrEmpty, isNullOrWhiteSpace, addDays, addMonths, addYears, addHours, addMinutes,
    addSeconds]

/-- The method with a name. -/
def ofName? (n : String) : Option Method := all.find? fun m => m.name == n

end Method

/-- A property or a method. -/
inductive Operation where
  | property (p : Property)
  | method (m : Method)
deriving DecidableEq, Repr

/-- An operation as messages show it: a method has parentheses. -/
def Operation.shown : Operation → String
  | property p => p.name
  | method m => m.name ++ "()"

/-! ### Operators -/

/-- An operator between two expressions. -/
inductive BinaryOperator where
  | add
  | subtract
  | multiply
  | divide
  | modulo
  | concat
  | and
  | or
  | equal
  | notEqual
  | greater
  | greaterOrEqual
  | less
  | lessOrEqual
deriving DecidableEq, Repr

namespace BinaryOperator

/-- The operators that compare two values. -/
def isComparison : BinaryOperator → Bool
  | equal | notEqual | greater | greaterOrEqual | less | lessOrEqual => true
  | _ => false

/-- The operators between two conditions. -/
def isLogical : BinaryOperator → Bool
  | and | or => true
  | _ => false

/-- The name of an operator. -/
def name : BinaryOperator → String
  | add => "Add"
  | subtract => "Subtract"
  | multiply => "Multiply"
  | divide => "Divide"
  | modulo => "Modulo"
  | concat => "Concat"
  | and => "LogicalAnd"
  | or => "LogicalOr"
  | equal => "Equal"
  | notEqual => "NotEqual"
  | greater => "GreaterThan"
  | greaterOrEqual => "GreaterThanOrEqual"
  | less => "LessThan"
  | lessOrEqual => "LessThanOrEqual"

/-- Every operator. -/
def all : List BinaryOperator :=
  [add, subtract, multiply, divide, modulo, concat, and, or, equal, notEqual, greater,
    greaterOrEqual, less, lessOrEqual]

/-- The operator with a name. -/
def ofName? (n : String) : Option BinaryOperator := all.find? fun o => o.name == n

end BinaryOperator

/-- An operator on one expression. -/
inductive UnaryOperator where
  | not
  | negate
deriving DecidableEq, Repr

/-- The name of an operator. -/
def UnaryOperator.name : UnaryOperator → String
  | not => "LogicalNot"
  | negate => "Negate"

/-- The operator with a name. -/
def UnaryOperator.ofName? (n : String) : Option UnaryOperator :=
  [UnaryOperator.not, negate].find? fun o => o.name == n

/-- The direction of an ordering. -/
inductive Direction where
  | ascending
  | descending
deriving DecidableEq, Repr

/-- The name of a direction. -/
def Direction.name : Direction → String
  | ascending => "Asc"
  | descending => "Desc"

/-- The direction with a name. -/
def Direction.ofName? (n : String) : Option Direction :=
  [ascending, descending].find? fun d => d.name == n

end QueryLoom
