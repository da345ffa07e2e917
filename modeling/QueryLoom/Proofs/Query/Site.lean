/-
  QueryLoom/Proofs/Query/Site.lean
  ================================
  **Well-formed queries.**  Every node of a query stands in a place: where rows are wanted, where
  a count is wanted, or where a scalar is wanted, and there certain sources are in scope.  What
  a node has to be depends on its place and its scope alone, so a query is well formed when
  it can be a query at all and each of its sites is sound.  Nothing here knows how a query is
  taken over.

  A predicate, a column of a projection and a sort key see the rows that they are applied to in
  front of what the sequence sees.

    * `rowSites`, `scalarSites` — the sites of a sequence and of a scalar;
    * `Site.isSound` — what a node has to be where it stands;
    * `Query.isWellFormed` — all of it together.
-/
import QueryLoom.Proofs.Query.Spine
import QueryLoom.Sql.Mapping

namespace QueryLoom

namespace Query

/-- Whether the node is a test for rows. -/
def isAny : Query → Bool
  | any .. => true
  | _ => false

/-! ### Nodes -/

mutual

/-- The node and all nodes in it. -/
def nodes (q : Query) : List Query :=
  q :: match q with
    | source .. | constant _ | parameter _ => []
    | filter rows predicate => rows.nodes ++ predicate.nodes
    | project rows columns => rows.nodes ++ columnNodes columns
    | skip rows count => rows.nodes ++ count.nodes
    | take rows count => rows.nodes ++ count.nodes
    | orderBy rows key _ => rows.nodes ++ key.nodes
    | any rows predicate? => rows.nodes ++ optionNodes predicate?
    | member receiver? _ => optionNodes receiver?
    | call receiver? _ args => optionNodes receiver? ++ listNodes args
    | binary left _ right => left.nodes ++ right.nodes
    | unary _ operand => operand.nodes

/-- The nodes in one that may be missing. -/
def optionNodes : Option Query → List Query
  | none => []
  | some q => q.nodes

/-- The nodes in a list. -/
def listNodes : List Query → List Query
  | [] => []
  | q :: rest => q.nodes ++ listNodes rest

/-- The nodes in the columns of a projection. -/
def columnNodes : List (String × Query) → List Query
  | [] => []
  | (_, q) :: rest => q.nodes ++ columnNodes rest

end

theorem self_mem_nodes (q : Query) : q ∈ q.nodes := by
  unfold nodes
  exact List.mem_cons_self

theorem nodes_subset_listNodes {x : Query} {qs : List Query} (h : x ∈ qs) :
    x.nodes ⊆ listNodes qs := by
  induction qs with
  | nil => exact absurd h List.not_mem_nil
  | cons q rest ih =>
    rw [listNodes]
    rcases List.mem_cons.mp h with rfl | h
    · exact List.subset_append_left _ _
    · exact List.Subset.trans (ih h) (List.subset_append_right _ _)

theorem columnNodes_eq (columns : List (String × Query)) :
    columnNodes columns = listNodes (columns.map Prod.snd) := by
  induction columns with
  | nil => rfl
  | cons c rest ih => exact congrArg (c.2.nodes ++ ·) ih

mutual

/-- A scalar without a test among its nodes tests no sequence. -/
theorem tests_eq_nil : (q : Query) → (∀ x ∈ q.nodes, x.isAny = false) → q.tests = []
  | source .., _ | filter .., _ | project .., _ | skip .., _ | take .., _ | orderBy .., _
  | constant _, _ | parameter _, _ => rfl
  | any rows predicate?, h => Bool.noConfusion (h _ (self_mem_nodes _))
  | member receiver? _, h => by
    rw [nodes, List.forall_mem_cons] at h
    rw [tests, optionTests_eq_nil receiver? h.2]
  | call receiver? _ args, h => by
    rw [nodes, List.forall_mem_cons, List.forall_mem_append] at h
    rw [tests, optionTests_eq_nil receiver? h.2.1, listTests_eq_nil args h.2.2]
    rfl
  | binary left _ right, h => by
    rw [nodes, List.forall_mem_cons, List.forall_mem_append] at h
    rw [tests, tests_eq_nil left h.2.1, tests_eq_nil right h.2.2]
    rfl
  | unary _ operand, h => by
    rw [nodes, List.forall_mem_cons] at h
    rw [tests, tests_eq_nil operand h.2]

theorem optionTests_eq_nil : (q? : Option Query) →
    (∀ x ∈ optionNodes q?, x.isAny = false) → optionTests q? = []
  | none, _ => rfl
  | some q, h => tests_eq_nil q h

theorem listTests_eq_nil : (qs : List Query) →
    (∀ x ∈ listNodes qs, x.isAny = false) → listTests qs = []
  | [], _ => rfl
  | q :: rest, h => by
    rw [listNodes, List.forall_mem_append] at h
    rw [listTests, tests_eq_nil q h.1, listTests_eq_nil rest h.2]
    rfl

end

/-! ### Sites -/

/-- What is wanted where a node stands. -/
inductive Place where
  | rows
  | count
  | scalar
deriving DecidableEq, Repr

/-- A node where it stands. -/
structure Site where
  place : Place
  /-- The aliases of the sources in scope, innermost first. -/
  scope : List String
  node : Query

mutual

/-- The sites of a sequence. -/
def rowSites (scope : List String) (q : Query) : List Site :=
  ⟨.rows, scope, q⟩ :: match q with
    | filter rows predicate =>
      rows.rowSites scope ++ predicate.scalarSites (rows.rowAlias :: scope)
    | project rows columns => rows.rowSites scope ++ columnSites (rows.rowAlias :: scope) columns
    | skip rows count => rows.rowSites scope ++ [⟨.count, scope, count⟩]
    | take rows count => rows.rowSites scope ++ [⟨.count, scope, count⟩]
    | orderBy rows key _ => rows.rowSites scope ++ key.scalarSites (rows.rowAlias :: scope)
    | _ => []

/-- The sites of a scalar. -/
def scalarSites (scope : List String) (q : Query) : List Site :=
  ⟨.scalar, scope, q⟩ :: match q with
    | any rows predicate? => rows.rowSites scope ++ optionSites (rows.rowAlias :: scope) predicate?
    | member receiver? _ => optionSites scope receiver?
    | call receiver? _ args => optionSites scope receiver? ++ listSites scope args
    | binary left _ right => left.scalarSites scope ++ right.scalarSites scope
    | unary _ operand => operand.scalarSites scope
    | _ => []

/-- The sites of a scalar that may be missing. -/
def optionSites (scope : List String) : Option Query → List Site
  | none => []
  | some q => q.scalarSites scope

/-- The sites of the scalars in a list. -/
def listSites (scope : List String) : List Query → List Site
  | [] => []
  | q :: rest => q.scalarSites scope ++ listSites scope rest

/-- The sites of the columns of a projection. -/
def columnSites (scope : List String) : List (String × Query) → List Site
  | [] => []
  | (_, q) :: rest => q.scalarSites scope ++ columnSites scope rest

end

end Query

open Query

/-! ### What is wanted -/

/-- Whether the value is an integer that is not negative. -/
def Value.isNatural (v : Value) : Bool := v.integer?.any fun n => 0 ≤ n

/-- Whether a node can count rows: an integer constant that is not negative, or a parameter of an
    integer type. -/
def Query.isCount : Query → Bool
  | constant v => v.isNatural
  | parameter p => p.type.isInteger
  | _ => false

/-- Whether a node can be the start of a text.  Only constants are looked at. -/
def Query.isStart : Query → Bool
  | constant v => v.isNatural
  | _ => true

/-- Whether an operation is mapped for a number of arguments, is given a receiver exactly if it
    wants one, and needs nothing that the server lacks. -/
def Sql.Mapping.isFor (caps : Capabilities) (op : Operation) (hasReceiver : Bool) (arity : Nat) :
    Bool :=
  (Sql.Mapping.find? op arity).any fun x =>
    x.hasReceiver == hasReceiver && x.requires?.all caps.supports

/-- Whether the node is what is wanted where it stands. -/
def Query.Site.isSound (caps : Capabilities) (site : Site) : Bool :=
  match site.place with
  | .rows => site.node.isSequence
  | .count => site.node.isCount
  | .scalar =>
    match site.node with
    | member receiver? (.column alias? _) => receiver?.isNone && alias?.all site.scope.contains
    | member receiver? (.property p) =>
      Sql.Mapping.isFor caps (.property p) receiver?.isSome 0
    | call receiver? m args =>
      Sql.Mapping.isFor caps (.method m) receiver?.isSome args.length &&
        (m != .substring || args.head?.all isStart)
    | q => !q.isSequence

namespace Query.Site

variable {caps : Capabilities} {scope : List String} {receiver? : Option Query}

theorem isSound_column {alias? : Option String} {name : String} :
    isSound caps ⟨.scalar, scope, member receiver? (.column alias? name)⟩ =
      (receiver?.isNone && alias?.all scope.contains) := rfl

theorem isSound_property {p : Property} :
    isSound caps ⟨.scalar, scope, member receiver? (.property p)⟩ =
      Sql.Mapping.isFor caps (.property p) receiver?.isSome 0 := rfl

theorem isSound_call {m : Method} {args : List Query} :
    isSound caps ⟨.scalar, scope, call receiver? m args⟩ =
      (Sql.Mapping.isFor caps (.method m) receiver?.isSome args.length &&
        (m != .substring || args.head?.all isStart)) := rfl

end Query.Site

/-- Whether a query is a sequence, or a test on a server that takes tests for queries, with sound
    sites throughout. -/
def Query.isWellFormed (caps : Capabilities) (q : Query) : Bool :=
  if q.isSequence then (q.rowSites []).all (Site.isSound caps)
  else q.isAny && caps.topLevelAny && (q.scalarSites []).all (Site.isSound caps)

/-! ### Orderings -/

/-- Whether a node leaves orderings as they can always be kept: a projection has none under it,
    and a sort key has no test in it. -/
def Query.sparesOrderings : Query → Bool
  | project rows _ => rows.sortKeys.isEmpty
  | orderBy _ key _ => key.nodes.all fun x => !x.isAny
  | _ => true

end QueryLoom
