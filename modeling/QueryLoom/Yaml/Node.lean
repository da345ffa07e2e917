/-
  QueryLoom/Yaml/Node.lean
  ========================
  **YAML documents**: nodes as they are written, with their tags, and what aliases stand for.

  An anchor has a place, and an alias goes to a place.  Which node is there is only known at
  the end of the document: it is that of the last anchor with the place, which may even hold
  the alias.  So values are read by following aliases, and how many may be followed depends
  on the size of the document.
-/
import QueryLoom.Yaml.Token

namespace QueryLoom.Yaml

/-- A node of a document. -/
inductive Node where
  | scalar (text : String) (style : ScalarStyle) (tag? : Option Tag)
  | sequence (items : List Node) (tag? : Option Tag)
  | mapping (fields : List (Node × Node)) (tag? : Option Tag)
  | aliasOf (place : Nat)

namespace Node

instance : Inhabited Node := ⟨scalar "" .plain none⟩

/-- A scalar that is not written. -/
def missing (tag? : Option Tag) : Node := scalar "" .plain tag?

/-- The tag of a node. -/
def tag? : Node → Option Tag
  | scalar _ _ t => t
  | sequence _ t => t
  | mapping _ t => t
  | aliasOf _ => none

/-- What the tag of a node names. -/
def name? (n : Node) : Option String := n.tag?.bind Tag.name?

end Node

/-- A document. -/
structure Document where
  root : Node
  /-- The nodes that have anchors, with their places, in the order in which they start. -/
  anchored : List (Nat × Node)
  /-- The number of starts and ends of its nodes. -/
  events : Nat

namespace Document

/-- The node at a place. -/
def node? (d : Document) (place : Nat) : Option Node :=
  (d.anchored.reverse.find? fun a => a.1 == place).map (·.2)

/-- How many aliases may be followed when the document is read. -/
def aliasLimit (d : Document) : Nat := 100 * d.events

end Document

/-! ### Following aliases -/

/-- Reading a document with a number of aliases that may still be followed. -/
abbrev Following := ReaderT Document (StateT Nat Option)

/-- The node itself, or the node at the place that an alias goes to. -/
def Node.followed : Node → Following Node
  | aliasOf place => do
    match ← get with
    | 0 => failure
    | left + 1 =>
      set left
      (← read).node? place
  | n => return n

@[simp] theorem Node.followed_scalar (text : String) (style : ScalarStyle) (t : Option Tag) :
    (scalar text style t).followed = pure (scalar text style t) := rfl

@[simp] theorem Node.followed_sequence (items : List Node) (t : Option Tag) :
    (sequence items t).followed = pure (sequence items t) := rfl

@[simp] theorem Node.followed_mapping (fields : List (Node × Node)) (t : Option Tag) :
    (mapping fields t).followed = pure (mapping fields t) := rfl

/-- Reads a document from its root. -/
def Document.follow? {α : Type} (d : Document) (f : Node → Following α) : Option α :=
  ((f d.root).run d).run' d.aliasLimit

end QueryLoom.Yaml
