/-
  QueryLoom/Yaml/Basic.lean
  =========================
  **YAML values**, read from text, with the text that messages show for them.  The fields of
  a mapping keep their order, and no key stands twice.

  The tag of a value is the name that the document gives its kind.
-/
import QueryLoom.Text.Escaped
import QueryLoom.Yaml.Document
import QueryLoom.Yaml.Plain

namespace QueryLoom

open Number

/-- A YAML value. -/
inductive Yaml where
  | null
  | bool (b : Bool)
  | integer (n : Int)
  | float (x : Binary .double)
  | string (s : String)
  | sequence (items : List Yaml)
  | mapping (fields : List (Yaml × Yaml))
  | tagged (tag : String) (content : Yaml)

namespace Yaml

instance : Inhabited Yaml := ⟨null⟩

/-- The value without its tags. -/
def untagged : Yaml → Yaml
  | tagged _ content => content.untagged
  | v => v

/-! ### Equality of keys -/

mutual

/-- Equality of values.  Numbers compare by value, and mappings by their fields in any
    order. -/
def agrees : Yaml → Yaml → Bool
  | null, null => true
  | bool b, bool b' => b == b'
  | integer n, integer n' => n == n'
  | float x, float y =>
    x.agrees y || (x.magnitude == .notANumber && y.magnitude == .notANumber)
  | string s, string s' => s == s'
  | sequence xs, sequence ys => agreeItems xs ys
  | mapping fs, mapping gs => fs.length == gs.length && agreeFields fs gs
  | tagged t x, tagged t' y => t == t' && x.agrees y
  | _, _ => false

/-- Equality of the items of sequences. -/
def agreeItems : List Yaml → List Yaml → Bool
  | [], [] => true
  | x :: xs, y :: ys => x.agrees y && agreeItems xs ys
  | _, _ => false

/-- Whether each field stands among the others. -/
def agreeFields : List (Yaml × Yaml) → List (Yaml × Yaml) → Bool
  | [], _ => true
  | (k, v) :: fs, gs => (gs.any fun g => k.agrees g.1 && v.agrees g.2) && agreeFields fs gs

end

/-! ### Reading -/

/-- A value from what a plain scalar means. -/
def ofPlain : Plain → Yaml
  | .null => null
  | .bool b => bool b
  | .integer n => integer n
  | .float x => float x
  | .text s => string s

/-- A scalar with a tag that is not the document's own. -/
def ofCore? (text : String) (tag : Tag) : Option Yaml :=
  if tag = .core "null" then if Plain.isNull text && text != "" then some null else none
  else if tag = .core "bool" then (Plain.bool? text).map bool
  else if tag = .core "int" then
    match Plain.integer? text.toList with
    | some n => if Plain.fits 64 n then some (integer n) else none
    | none => none
  else if tag = .core "float" then (Plain.float? text.toList).map float
  else some (string text)

/-- A scalar apart from its tag.  Only a plain one can be anything but a text. -/
def ofBare? (text : String) (style : ScalarStyle) : Option Yaml :=
  match style with
  | .plain => (Plain.ofText? text).map ofPlain
  | _ => some (string text)

/-- The value under a tag, which counts if it names something. -/
def withTag (tag? : Option Tag) (v : Yaml) : Yaml :=
  match tag?.bind Tag.name? with
  | some name => tagged (Tag.unmarked name) v
  | none => v

/-- The value of a scalar. -/
def ofScalar? (text : String) (style : ScalarStyle) (tag? : Option Tag) : Option Yaml :=
  match tag? with
  | none => ofBare? text style
  | some tag => if tag.isLocal then (ofBare? text style).map (withTag tag?) else ofCore? text tag

/-- Adds a field whose key is new. -/
def addField? (fields : List (Yaml × Yaml)) (field : Yaml × Yaml) : Option (List (Yaml × Yaml)) :=
  if fields.any fun f => f.1.agrees field.1 then none else some (fields ++ [field])

/-- A mapping with the given fields, of which no two have the same key. -/
def mapping? (fields : List (Yaml × Yaml)) : Option Yaml :=
  (fields.foldlM addField? []).map mapping

/-- How many sequences and mappings may stand in one another. -/
def maxDepth : Nat := 128

/-- The value of a node with at most `depth` sequences and mappings in one another. -/
def ofNode (depth : Nat) (n : Node) : Following Yaml := do
  match ← n.followed, depth with
  | .scalar text style tag?, _ => ofScalar? text style tag?
  | .sequence items tag?, depth + 1 =>
    return withTag tag? (sequence (← items.mapM (ofNode depth)))
  | .mapping fields tag?, depth + 1 =>
    let fields ← fields.mapM fun (k, v) => return (← ofNode depth k, ← ofNode depth v)
    return withTag tag? (← mapping? fields)
  | _, _ => failure

/-- Reads a text that is one YAML document.  A text without any is null. -/
def ofText? (text : String) : Option Yaml :=
  match Document.ofText? text with
  | none => none
  | some none => some null
  | some (some d) => d.follow? (ofNode maxDepth)

/-! ### Tags read again -/

mutual

/-- The value with every tag read as if it were written, which takes another mark off it.  Keys
    have to stay different. -/
def reread? : Yaml → Option Yaml
  | sequence items => (rereadItems? items).map sequence
  | mapping fields => (rereadFields? fields).bind mapping?
  | tagged tag content => content.reread?.map (tagged (Tag.unmarked tag))
  | v => some v

/-- Reads the tags in items again. -/
def rereadItems? : List Yaml → Option (List Yaml)
  | [] => some []
  | v :: rest => do return (← v.reread?) :: (← rereadItems? rest)

/-- Reads the tags in fields again. -/
def rereadFields? : List (Yaml × Yaml) → Option (List (Yaml × Yaml))
  | [] => some []
  | (k, v) :: rest => do return (← k.reread?, ← v.reread?) :: (← rereadFields? rest)

end

/-! ### Showing -/

/-- The layout of floating-point numbers in YAML. -/
def floatLayout : Layout := ⟨-5, 15, false, ".inf", ".nan"⟩

/-- A number as YAML writes it. -/
def numberText? : Yaml → Option String
  | integer n => some (toString n)
  | float x => some (x.write floatLayout)
  | _ => none

mutual

/-- A value as messages show it. -/
def shown : Yaml → String
  | null => "Null"
  | bool b => "Bool(" ++ (if b then "true" else "false") ++ ")"
  | integer n => "Number(" ++ toString n ++ ")"
  | float x => "Number(" ++ x.write floatLayout ++ ")"
  | string s => "String(" ++ Text.shown s ++ ")"
  | sequence items => "Sequence " ++ Text.bracketed (shownItems items)
  | mapping fields => "Mapping \x7b" ++ ", ".intercalate (shownFields fields) ++ "\x7d"
  | tagged tag content =>
    "TaggedValue \x7b tag: !" ++ tag ++ ", value: " ++ content.shown ++ " \x7d"

/-- The items of a sequence as messages show them. -/
def shownItems : List Yaml → List String
  | [] => []
  | v :: rest => v.shown :: shownItems rest

/-- The fields of a mapping as messages show them: a key that is a Boolean, a number or a
    text is shown bare. -/
def shownFields : List (Yaml × Yaml) → List String
  | [] => []
  | (k, v) :: rest =>
    let key := match k with
      | bool b => if b then "true" else "false"
      | string s => Text.shown s
      | k => (numberText? k).getD k.shown
    (key ++ ": " ++ v.shown) :: shownFields rest

end

end Yaml

end QueryLoom
