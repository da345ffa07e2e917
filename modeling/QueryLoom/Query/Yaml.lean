/-
  QueryLoom/Query/Yaml.lean
  =========================
  **Query trees as YAML.**  A node has the name of its kind as its tag and its parts as the
  fields of a mapping.  A name without parts is a scalar.  Within a tagged scalar there is
  room for nothing but such a name, so the only constant that can be written is `Null`.

  A missing scalar counts as a mapping or a sequence without anything in it.  Aliases are
  followed wherever something is read; what is passed over may hold any.
-/
import QueryLoom.Query.Basic
import QueryLoom.Yaml.Basic

namespace QueryLoom.Yaml

namespace Node

/-- Whether the node is a scalar that is not written. -/
def isMissing : Node → Bool
  | scalar text .plain _ => text.isEmpty
  | _ => false

/-- The text of a scalar. -/
def text? : Node → Option String
  | scalar text _ _ => some text
  | _ => none

/-- Whether the node is a plain scalar that stands for null. -/
def isNull : Node → Bool
  | scalar text .plain _ => Plain.isNull text
  | _ => false

/-- A name without parts: a scalar, or a tag of nothing. -/
def constantName? (n : Node) : Option String :=
  match n.name? with
  | some name => if n.isNull then some name else none
  | none => n.text?

/-- A name without parts as the content of a tag. -/
def innerName? (n : Node) : Option String := n.text?.filter fun s => !s.isEmpty

/-- Whether the node can be a number: a plain scalar, or a literal one that a tag says is. -/
def isNumeric : Node → Bool
  | scalar _ .plain _ => true
  | scalar _ .literal tag? => tag? == some (.core "int")
  | _ => false

/-- A natural number below a bound. -/
def below? (bound : Nat) (n : Node) : Option Nat := do
  let text ← n.text?
  if !n.isNumeric || text.startsWith "-" then none
  else
    let i ← Plain.integer? text.toList
    if i < bound then some i.toNat else none

/-- Whether the node says that an option is empty.  The tag for null has to be right, and any
    other tag says that there is something. -/
def isNone? (n : Node) : Option Bool :=
  match n, n.tag? with
  | .scalar text .plain _, some tag =>
    if tag != .core "null" then some false
    else if Plain.isNull text && !text.isEmpty then some true
    else none
  | n, tag? => some (tag?.isNone && n.isNull)

end Node

/-! ### Records -/

/-- The text of a scalar. -/
def readText (n : Node) : Following String := do (← n.followed).text?

/-- The fields of a mapping that a reader knows. -/
abbrev Fields := List (String × Node)

/-- Reads a mapping with the given fields.  Other fields are passed over, but a field may not
    stand twice, and every key has to be a scalar. -/
def readFields (names : List String) (depth : Nat) (n : Node) : Following Fields := do
  match ← n.followed, depth with
  | .mapping fields _, _ + 1 =>
    let all ← fields.mapM fun (k, v) => return (← readText k, v)
    let known := all.filter fun f => names.contains f.1
    if (known.map (·.1)).Nodup then return known else failure
  | n, _ => if n.isMissing then return [] else failure

namespace Fields

/-- The value of a field. -/
def field? (r : Fields) (name : String) : Option Node :=
  (r.find? fun f => f.1 == name).map (·.2)

/-- The text of a field. -/
def text (r : Fields) (name : String) : Following String := do readText (← r.field? name)

/-- A name without parts in a field. -/
def named {α : Type} (r : Fields) (name : String) (ofName? : String → Option α) :
    Following α := do
  let n ← (← r.field? name).followed
  (n.constantName?.bind ofName? : Option α)

/-- A field that may be missing or null. -/
def optional {α : Type} (r : Fields) (name : String) (read : Node → Following α) :
    Following (Option α) := do
  match r.field? name with
  | none => return none
  | some n =>
    let n ← n.followed
    if ← n.isNone? then return none else return some (← read n)

end Fields

/-- Reads a sequence. -/
def readItems (depth : Nat) (n : Node) : Following (List Node) := do
  match ← n.followed, depth with
  | .sequence items _, _ + 1 => return items
  | n, _ => if n.isMissing then return [] else failure

end QueryLoom.Yaml

namespace QueryLoom

open Yaml (Following Node Fields)

/-- A type without parameters. -/
def DataType.plainOfName? (name : String) : Option DataType := plain.find? fun t => t.name == name

/-- Reads a type. -/
def DataType.ofNode (depth : Nat) (n : Node) : Following DataType := do
  let n ← n.followed
  match n.constantName?.bind plainOfName?, n.name? with
  | some t, _ => return t
  | none, some "Utf8String" => do
    let r ← Yaml.readFields ["length"] depth n
    let length? ← r.optional "length" fun n => (n.below? UInt32.size : Option Nat)
    return string (length?.map .ofNat)
  | none, some "Decimal" => do
    let r ← Yaml.readFields ["precision", "scale"] depth n
    let precision? ← r.optional "precision" fun n => (n.below? UInt16.size : Option Nat)
    let scale? ← r.optional "scale" fun n => (n.below? UInt16.size : Option Nat)
    return decimal (precision?.map .ofNat) (scale?.map .ofNat)
  | _, _ => failure

/-- Reads a member. -/
def Member.ofNode (depth : Nat) (n : Node) : Following Member := do
  let n ← n.followed
  match n.name? with
  | some "Column" =>
    let r ← Yaml.readFields ["alias", "name"] depth n
    return column (← r.optional "alias" Yaml.readText) (← r.text "name")
  | some "Property" => return property (← Property.ofName? (← n.innerName?))
  | _ => failure

namespace Query

/-- Reads the name and the query of a column. -/
def columnOfNode (depth : Nat) (n : Node) : Following (String × Node) := do
  match ← Yaml.readItems depth n with
  | [name, q] => return (← Yaml.readText name, q)
  | _ => failure

/-- Reads a node without anything in it. -/
def leafOfNode (n : Node) : Following Query :=
  if n.name? == some "Constant" && n.innerName? == some "Null" then return null else failure

/-- Reads a node with at most `depth` sequences and mappings in one another. -/
def ofNode (depth : Nat) (n : Node) : Following Query := do
  let n ← n.followed
  match depth with
  | 0 => leafOfNode n
  | inner + 1 =>
    let fields (names : List String) : Following Fields := Yaml.readFields names depth n
    let child (r : Fields) (name : String) : Following Query := do ofNode inner (← r.field? name)
    match ← n.name? with
    | "Source" =>
      let r ← fields ["table", "alias"]
      return source (← r.text "table") (← r.optional "alias" Yaml.readText)
    | "Filter" =>
      let r ← fields ["source", "predicate"]
      return filter (← child r "source") (← child r "predicate")
    | "Project" =>
      let r ← fields ["source", "cols"]
      let rows ← child r "source"
      let columns ← (← Yaml.readItems inner (← r.field? "cols")).mapM (columnOfNode (inner - 1))
      match inner with
      | innermost + 2 =>
        return project rows (← columns.mapM fun (name, q) => return (name, ← ofNode innermost q))
      | _ => if columns.isEmpty then return project rows [] else failure
    | "Skip" =>
      let r ← fields ["source", "count"]
      return skip (← child r "source") (← child r "count")
    | "Take" =>
      let r ← fields ["source", "count"]
      return take (← child r "source") (← child r "count")
    | "OrderBy" =>
      let r ← fields ["source", "key", "type"]
      return orderBy (← child r "source") (← child r "key") (← r.named "type" Direction.ofName?)
    | "Any" =>
      let r ← fields ["source", "predicate"]
      return any (← child r "source") (← r.optional "predicate" (ofNode inner))
    | "MemberAccess" =>
      let r ← fields ["instance", "member"]
      return member (← r.optional "instance" (ofNode inner))
        (← Member.ofNode inner (← r.field? "member"))
    | "MethodCall" =>
      let r ← fields ["instance", "method", "args"]
      let receiver? ← r.optional "instance" (ofNode inner)
      let method ← r.named "method" Method.ofName?
      match r.field? "args", inner with
      | none, _ => return call receiver? method []
      | some args, inner =>
        let args ← Yaml.readItems inner args
        match inner with
        | innermost + 1 => return call receiver? method (← args.mapM (ofNode innermost))
        | 0 => return call receiver? method []
    | "Parameter" =>
      let r ← fields ["name", "type"]
      return parameter ⟨← r.text "name", ← DataType.ofNode inner (← r.field? "type")⟩
    | "BinaryOp" =>
      let r ← fields ["left", "type", "right"]
      return binary (← child r "left") (← r.named "type" BinaryOperator.ofName?)
        (← child r "right")
    | "UnaryOp" =>
      let r ← fields ["type", "expr"]
      return unary (← r.named "type" UnaryOperator.ofName?) (← child r "expr")
    | _ => leafOfNode n

/-- Reads a query from YAML text. -/
def ofYaml? (text : String) : Option Query :=
  match Yaml.Document.ofText? text with
  | some (some d) => d.follow? (ofNode Yaml.maxDepth)
  | _ => none

end Query

end QueryLoom
