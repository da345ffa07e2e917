/-
  QueryLoom/Yaml/Document.lean
  ============================
  **Reading a YAML document** from its tokens.  A node may have an anchor and a tag, and it
  may be missing where something else shows that it should be there.

  An alias must come after an anchor with its name.
-/
import QueryLoom.Yaml.Lexer
import QueryLoom.Yaml.Node

namespace QueryLoom.Yaml

/-! ### What has been read -/

/-- An anchor with its place, and its node once that is complete. -/
structure Anchor where
  name : String
  place : Nat
  node? : Option Node := none

/-- What is left to read, and what has been seen. -/
structure Reader where
  tokens : List Token
  handles : List (String × Tag) := []
  anchors : List Anchor := []
  /-- The number of starts and ends of nodes so far. -/
  events : Nat := 0

/-- A step of reading. -/
abbrev Reading := StateT Reader Option

namespace Reading

/-- The next token. -/
def peek : Reading (Option Token) := do return (← get).tokens.head?

/-- Passes over the next token. -/
def next : Reading Unit := modify fun r => { r with tokens := r.tokens.drop 1 }

/-- Counts starts and ends of nodes. -/
def count (n : Nat) : Reading Unit := modify fun r => { r with events := r.events + n }

/-- Passes over the given token, which must come next. -/
def expect (t : Token) : Reading Unit := do
  if (← peek) == some t then next else failure

/-- The handles that are always there. -/
def standardHandles : List (String × Tag) := [("!", .ofString "!"), ("!!", .core "")]

/-- A tag in full. -/
def resolve (handle : String) (suffix : Tag) : Reading Tag := do
  if handle.isEmpty then return suffix
  let handles := (← get).handles ++ standardHandles
  match handles.find? fun h => h.1 == handle with
  | some (_, stem) => return stem.append suffix
  | none => failure

/-- What stands in front of a node. -/
structure Properties where
  anchor? : Option String := none
  tag? : Option Tag := none

/-- Whether nothing stands in front of the node. -/
def Properties.isEmpty (p : Properties) : Bool := p.anchor?.isNone && p.tag?.isNone

/-- Reads an anchor and a tag in either order. -/
def properties : Reading Properties := do
  let tag : Reading (Option Tag) := do
    match ← peek with
    | some (.tag handle suffix) =>
      next
      return some (← resolve handle suffix)
    | _ => return none
  let anchor : Reading (Option String) := do
    match ← peek with
    | some (.anchor name) =>
      next
      return some name
    | _ => return none
  match ← anchor with
  | some name => return ⟨some name, ← tag⟩
  | none =>
    let tag? ← tag
    let anchor? ← if tag?.isSome then anchor else pure none
    return ⟨anchor?, tag?⟩

/-- The alias with a name, which goes to the place of the last anchor that had the name. -/
def aliased (name : String) : Reading Node := do
  match (← get).anchors.reverse.find? fun a => a.name == name with
  | some a =>
    count 1
    return .aliasOf a.place
  | none => failure

/-- Reads a node under an anchor.  The place of the anchor is the number of names that anchors
    had before it. -/
def anchored (anchor? : Option String) (read : Reading Node) : Reading Node := do
  match anchor? with
  | none => read
  | some name =>
    let before := (← get).anchors
    let place := (before.map (·.name)).eraseDups.length
    modify fun r => { r with anchors := before ++ [⟨name, place, none⟩] }
    let node ← read
    modify fun r =>
      { r with anchors := r.anchors.modify before.length fun a => { a with node? := some node } }
    return node

end Reading

open Reading in
mutual

/-- Reads a node.  Blocks may start where `inBlock`, and the items of a sequence may stand at
    the indentation of their parent's keys where `indentless`. -/
def node (inBlock indentless : Bool) : Nat → Reading Node
  | 0 => failure
  | fuel + 1 => do
    if let some (.aliasOf name) ← peek then
      next
      return ← aliased name
    let p ← properties
    let tag? := p.tag?
    anchored p.anchor? do
      match ← peek with
      | some (.scalar text style) =>
        next
        count 1
        return .scalar text style tag?
      | some .flowSequenceStart =>
        next
        count 2
        return .sequence (← flowItems true fuel) tag?
      | some .flowMappingStart =>
        next
        count 2
        return .mapping (← flowFields true fuel) tag?
      | t =>
        if t == some .blockEntry && indentless then
          count 2
          return .sequence (← indentlessItems fuel) tag?
        else if t == some .blockSequenceStart && inBlock then
          next
          count 2
          return .sequence (← blockItems fuel) tag?
        else if t == some .blockMappingStart && inBlock then
          next
          count 2
          return .mapping (← blockFields fuel) tag?
        else if p.isEmpty then failure
        else
          count 1
          return .missing tag?

/-- Reads a node, or a missing scalar if one of the given tokens comes next. -/
def nodeUnless (inBlock indentless : Bool) (ends : List (Option Token)) : Nat → Reading Node
  | 0 => failure
  | fuel + 1 => do
    if ends.contains (← peek) then
      count 1
      return .missing none
    else node inBlock indentless fuel

/-- Reads the items of a block sequence. -/
def blockItems : Nat → Reading (List Node)
  | 0 => failure
  | fuel + 1 => do
    match ← peek with
    | some .blockEntry =>
      next
      let item ← nodeUnless true false [some .blockEntry, some .blockEnd] fuel
      return item :: (← blockItems fuel)
    | _ =>
      expect .blockEnd
      return []

/-- Reads the items of a sequence that is not indented. -/
def indentlessItems : Nat → Reading (List Node)
  | 0 => failure
  | fuel + 1 => do
    match ← peek with
    | some .blockEntry =>
      next
      let ends := [some .blockEntry, some .key, some .value, some .blockEnd]
      let item ← nodeUnless true false ends fuel
      return item :: (← indentlessItems fuel)
    | _ => return []

/-- Reads the fields of a block mapping. -/
def blockFields : Nat → Reading (List (Node × Node))
  | 0 => failure
  | fuel + 1 => do
    let ends := [some Token.key, some .value, some .blockEnd]
    match ← peek with
    | some .key =>
      next
      let key ← nodeUnless true true ends fuel
      match ← peek with
      | some .value =>
        next
        let value ← nodeUnless true true ends fuel
        return (key, value) :: (← blockFields fuel)
      | _ =>
        count 1
        return (key, .missing none) :: (← blockFields fuel)
    | _ =>
      expect .blockEnd
      return []

/-- Reads the items of a flow sequence.  An item with a key is a mapping of one field. -/
def flowItems (first : Bool) : Nat → Reading (List Node)
  | 0 => failure
  | fuel + 1 => do
    if (← peek) == some .flowSequenceEnd then
      next
      return []
    if !first then expect .flowEntry
    match ← peek with
    | some .key =>
      next
      count 2
      let field ← flowPair fuel
      return .mapping [field] none :: (← flowItems false fuel)
    | some .flowSequenceEnd =>
      next
      return []
    | _ =>
      let item ← node false false fuel
      return item :: (← flowItems false fuel)

/-- Reads the only field of a mapping within a flow sequence. -/
def flowPair : Nat → Reading (Node × Node)
  | 0 => failure
  | fuel + 1 => do
    let ends := [some Token.value, some .flowEntry, some .flowSequenceEnd]
    let isMissing := ends.contains (← peek)
    let key ← nodeUnless false false ends fuel
    -- the token after a missing key is passed over
    if isMissing then next
    match ← peek with
    | some .value =>
      next
      return (key, ← nodeUnless false false [some .flowEntry, some .flowSequenceEnd] fuel)
    | _ =>
      count 1
      return (key, .missing none)

/-- Reads the fields of a flow mapping.  A node without a key's sign has no value. -/
def flowFields (first : Bool) : Nat → Reading (List (Node × Node))
  | 0 => failure
  | fuel + 1 => do
    if (← peek) == some .flowMappingEnd then
      next
      return []
    if !first then expect .flowEntry
    match ← peek with
    | some .key =>
      next
      let ends := [some Token.flowEntry, some .flowMappingEnd]
      let key ← nodeUnless false false (some .value :: ends) fuel
      match ← peek with
      | some .value =>
        next
        let value ← nodeUnless false false ends fuel
        return (key, value) :: (← flowFields false fuel)
      | _ =>
        count 1
        return (key, .missing none) :: (← flowFields false fuel)
    | some .flowMappingEnd =>
      next
      return []
    | _ =>
      let key ← node false false fuel
      count 1
      return (key, .missing none) :: (← flowFields false fuel)

end

open Reading

/-- Reads the directives before a document.  At most one gives the version, and a handle gets
    one meaning. -/
def directives (version : Bool) : Nat → Reading Unit
  | 0 => failure
  | fuel + 1 => do
    match ← peek with
    | some (.versionDirective major minor) =>
      next
      if version || major != 1 || (minor != 1 && minor != 2) then failure
      directives true fuel
    | some (.tagDirective handle stem) =>
      next
      if (← get).handles.any fun h => h.1 == handle then failure
      modify fun r => { r with handles := (handle, stem) :: r.handles }
      directives version fuel
    | _ => return ()

/-- Passes over marks of a document's end. -/
def documentEnds : Nat → Reading Unit
  | 0 => return ()
  | fuel + 1 => do
    if (← peek) == some .documentEnd then
      next
      documentEnds fuel

/-- The tokens that a document without content can be followed by. -/
def endsDocument : Option Token → Bool
  | none => true
  | some (.versionDirective ..) | some (.tagDirective ..) => true
  | some .documentStart | some .documentEnd => true
  | _ => false

/-- Reads the root of the only document of a text, or nothing from a text without one. -/
def onlyRoot : Reading (Option Node) := do
  let fuel := 4 * (← get).tokens.length + 4
  if (← peek).isNone then return none
  let root ← if endsDocument (← peek) && (← peek) != some .documentEnd then do
      directives false fuel
      expect .documentStart
      if endsDocument (← peek) then
        count 1
        pure (.missing none)
      else node true false fuel
    else node true false fuel
  documentEnds fuel
  if (← peek).isSome then failure
  return some root

/-- The document of a text that is one YAML document: the inner nothing is a text without any. -/
def Document.ofText? (text : String) : Option (Option Document) := do
  let ts ← tokens? text
  let (root?, r) ← onlyRoot.run { tokens := ts }
  let anchored := r.anchors.filterMap fun a => a.node?.map fun n => (a.place, n)
  return root?.map fun root => ⟨root, anchored, r.events⟩

end QueryLoom.Yaml
