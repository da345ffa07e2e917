/-
  QueryLoom/Query/Json.lean
  =========================
  **Query trees as JSON.**  Every node is a variant whose payload is a record of its parts.
-/
import QueryLoom.Query.Basic
import QueryLoom.Json.Reader

namespace QueryLoom

open Json (Record)

/-- Reads one of a set of names. -/
def named? {α : Type} (ofName? : String → Option α) (depth : Nat) (j : Json) : Option α :=
  (Json.unit? depth j).bind ofName?

/-- A parameter as JSON. -/
def Parameter.toJson (p : Parameter) : Json :=
  .object [("name", p.name), ("type", p.type.toJson)]

/-- Reads a parameter. -/
def Parameter.ofJson? (depth : Nat) (j : Json) : Option Parameter := do
  let r ← Json.record? ["name", "type"] 2 depth j
  return ⟨← r.string? "name", ← (r.field? "type").bind (DataType.ofJson? r.inner)⟩

/-- A member as JSON. -/
def Member.toJson : Member → Json
  | column alias? name =>
    .tagged "Column" (.object [("alias", .ofOption .string alias?), ("name", name)])
  | property p => .tagged "Property" p.name

/-- Reads a member. -/
def Member.ofJson? (depth : Nat) (j : Json) : Option Member := do
  let v ← Json.variant? depth j
  match v.name with
  | "Column" =>
    let r ← Json.record? ["alias", "name"] 2 v.inner v.payload
    return column (← r.optional? "alias" Json.string?) (← r.string? "name")
  | "Property" => (named? Property.ofName? v.inner v.payload).map property
  | _ => none

namespace Query

/-! ### Writing -/

mutual

/-- A node as JSON. -/
def toJson : Query → Json
  | source table alias? =>
    .tagged "Source" (.object [("table", table), ("alias", .ofOption .string alias?)])
  | filter rows predicate =>
    .tagged "Filter" (.object [("source", rows.toJson), ("predicate", predicate.toJson)])
  | project rows columns =>
    .tagged "Project" (.object [("source", rows.toJson), ("cols", .array (columnsJson columns))])
  | skip rows count =>
    .tagged "Skip" (.object [("source", rows.toJson), ("count", count.toJson)])
  | take rows count =>
    .tagged "Take" (.object [("source", rows.toJson), ("count", count.toJson)])
  | orderBy rows key direction =>
    .tagged "OrderBy"
      (.object [("source", rows.toJson), ("key", key.toJson), ("type", direction.name)])
  | any rows predicate? =>
    .tagged "Any" (.object [("source", rows.toJson), ("predicate", optionJson predicate?)])
  | member receiver? m =>
    .tagged "MemberAccess" (.object [("instance", optionJson receiver?), ("member", m.toJson)])
  | call receiver? method args =>
    .tagged "MethodCall" (.object [("instance", optionJson receiver?), ("method", method.name),
      ("args", .array (listJson args))])
  | constant v => .tagged "Constant" v.toJson
  | parameter p => .tagged "Parameter" p.toJson
  | binary left op right =>
    .tagged "BinaryOp"
      (.object [("left", left.toJson), ("type", op.name), ("right", right.toJson)])
  | unary op operand =>
    .tagged "UnaryOp" (.object [("type", op.name), ("expr", operand.toJson)])

/-- A node that may be missing. -/
def optionJson : Option Query → Json
  | none => .null
  | some q => q.toJson

/-- A list of nodes. -/
def listJson : List Query → List Json
  | [] => []
  | q :: rest => q.toJson :: listJson rest

/-- The columns of a projection, each a pair of name and expression. -/
def columnsJson : List (String × Query) → List Json
  | [] => []
  | (name, q) :: rest => .array [.string name, q.toJson] :: columnsJson rest

end

/-! ### Reading -/

/-- Reads a pair. -/
def pair? (j : Json) : Option (Json × Json) :=
  match j with
  | .array [x, y] => some (x, y)
  | _ => none

/-- Reads a node that is nested less deeply than `depth` allows. -/
def ofJson? (depth : Nat) (j : Json) : Option Query := do
  let v ← Json.variant? depth j
  have := v.inner_lt
  let record? (names : List String) : Option (Record v.inner) :=
    Json.record? names names.length v.inner v.payload
  let child? (r : Record v.inner) (name : String) : Option Query := do
    have := r.inner_lt
    ofJson? r.inner (← r.field? name)
  let optional? (r : Record v.inner) (name : String) : Option (Option Query) :=
    have := r.inner_lt
    r.optional? name fun j => ofJson? r.inner j
  match v.name with
  | "Source" =>
    let r ← record? ["table", "alias"]
    return source (← r.string? "table") (← r.optional? "alias" Json.string?)
  | "Filter" =>
    let r ← record? ["source", "predicate"]
    return filter (← child? r "source") (← child? r "predicate")
  | "Project" =>
    let r ← record? ["source", "cols"]
    have := r.inner_lt
    let rows ← child? r "source"
    let columns ← Json.items? r.inner (← r.field? "cols")
    have := columns.inner_lt
    return project rows (← columns.items.mapM fun column => do
      let (name, q) ← pair? column
      if 2 ≤ columns.inner then
        return (← name.string?, ← ofJson? (columns.inner - 1) q)
      else none)
  | "Skip" =>
    let r ← record? ["source", "count"]
    return skip (← child? r "source") (← child? r "count")
  | "Take" =>
    let r ← record? ["source", "count"]
    return take (← child? r "source") (← child? r "count")
  | "OrderBy" =>
    let r ← record? ["source", "key", "type"]
    return orderBy (← child? r "source") (← child? r "key")
      (← (r.field? "type").bind (named? Direction.ofName? r.inner))
  | "Any" =>
    let r ← record? ["source", "predicate"]
    return any (← child? r "source") (← optional? r "predicate")
  | "MemberAccess" =>
    let r ← record? ["instance", "member"]
    return member (← optional? r "instance") (← (r.field? "member").bind (Member.ofJson? r.inner))
  | "MethodCall" =>
    let r ← Json.record? ["instance", "method", "args"] 2 v.inner v.payload
    have := r.inner_lt
    let receiver? ← optional? r "instance"
    let method ← (r.field? "method").bind (named? Method.ofName? r.inner)
    match r.field? "args" with
    | none => return call receiver? method []
    | some args =>
      let args ← Json.items? r.inner args
      have := args.inner_lt
      return call receiver? method (← args.items.mapM fun j => ofJson? args.inner j)
  | "Constant" => (Value.ofJson? v.inner v.payload).map constant
  | "Parameter" => (Parameter.ofJson? v.inner v.payload).map parameter
  | "BinaryOp" =>
    let r ← record? ["left", "type", "right"]
    return binary (← child? r "left")
      (← (r.field? "type").bind (named? BinaryOperator.ofName? r.inner)) (← child? r "right")
  | "UnaryOp" =>
    let r ← record? ["type", "expr"]
    return unary (← (r.field? "type").bind (named? UnaryOperator.ofName? r.inner))
      (← child? r "expr")
  | _ => none
termination_by depth

/-- Reads a query from JSON text. -/
def parse? (text : String) : Option Query := (Json.parse? text).bind (ofJson? Json.maxDepth)

end Query

end QueryLoom
