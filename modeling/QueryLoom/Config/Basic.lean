/-
  QueryLoom/Config/Basic.lean
  ===========================
  **The configuration of a compiler**, read from YAML whose texts may refer to the
  environment.  References are expanded in texts that are values, as deep as they stand in
  sequences and mappings; keys and values with tags are left alone.

  Options are read in the order in which they stand, and the first one that is wrong is
  reported.  Options that are not known are passed over.
-/
import QueryLoom.Config.Reference
import QueryLoom.Sql.Statement
import QueryLoom.Yaml.Basic

namespace QueryLoom

/-- How queries are compiled and logged. -/
structure Config where
  /-- The version of the server, as it was written. -/
  serverVersion? : Option String := none
  placeholders : Placeholders := .positional
  /-- The number of characters of a statement that are logged. -/
  logLimit? : Option Nat := none
deriving DecidableEq, Repr

namespace Config

/-! ### Errors -/

/-- Why a value is no configuration. -/
inductive OptionError where
  | malformed
  | unquotedVersion (number : String)
  | notAVersion (shown : String)
deriving DecidableEq, Repr

/-- Why a text is no configuration. -/
inductive ReadError where
  | notYaml
  | reference (text : String) (e : ExpandError)
  | options (e : OptionError)
deriving DecidableEq, Repr

/-! ### Expanding references -/

mutual

/-- The value with the references in its texts expanded. -/
def expandTexts (lookup : String → Option String) : Yaml → Except ReadError Yaml
  | .string s => ((expand lookup s).map .string).mapError (.reference s)
  | .sequence items => (expandItems lookup items).map .sequence
  | .mapping fields => (expandFields lookup fields).map .mapping
  | v => .ok v

/-- Expands the items of a sequence from first to last. -/
def expandItems (lookup : String → Option String) : List Yaml → Except ReadError (List Yaml)
  | [] => .ok []
  | v :: rest => do
    let v ← expandTexts lookup v
    return v :: (← expandItems lookup rest)

/-- Expands the values of a mapping from first to last. -/
def expandFields (lookup : String → Option String) :
    List (Yaml × Yaml) → Except ReadError (List (Yaml × Yaml))
  | [] => .ok []
  | (k, v) :: rest => do
    let v ← expandTexts lookup v
    return (k, v) :: (← expandFields lookup rest)

end

mutual

/-- The names of the variables that a value refers to. -/
def referencesIn : Yaml → List String
  | .string s => references s
  | .sequence items => referencesInItems items
  | .mapping fields => referencesInFields fields
  | _ => []

/-- The names in the items of a sequence. -/
def referencesInItems : List Yaml → List String
  | [] => []
  | v :: rest => referencesIn v ++ referencesInItems rest

/-- The names in the values of a mapping. -/
def referencesInFields : List (Yaml × Yaml) → List String
  | [] => []
  | (_, v) :: rest => referencesIn v ++ referencesInFields rest

end

/-! ### Reading options -/

/-- The version of a server: a text, or a whole number.  Other numbers have to be quoted,
    because `3.10` would lose its last digit. -/
def readVersion (v : Yaml) : Except OptionError (Option String) :=
  match v with
  | .null => .ok none
  | .string s => .ok (some s)
  | .integer n =>
    if n < 0 then .error (.unquotedVersion (toString n)) else .ok (some (toString n))
  | .float x => .error (.unquotedVersion (x.write Yaml.floatLayout))
  | v =>
    match v.reread? with
    | some v => .error (.notAVersion v.shown)
    | none => .error .malformed

/-- The style of placeholders: its name, or its name as a tag of nothing. -/
def readPlaceholders (v : Yaml) : Except OptionError Placeholders :=
  let name? := match v with
    | .string s => some s
    | .tagged tag .null => some tag
    | _ => none
  match name?.bind Placeholders.ofName? with
  | some p => .ok p
  | none => .error .malformed

/-- A number of characters. -/
def readLimit (v : Yaml) : Except OptionError (Option Nat) :=
  match v, v.untagged with
  | .null, _ => .ok none
  | _, .integer n => if n < 0 then .error .malformed else .ok (some n.toNat)
  | _, _ => .error .malformed

/-- The configuration with one more option. -/
def withOption (c : Config) (name : String) (v : Yaml) : Except OptionError Config :=
  match name with
  | "server_version" => (readVersion v).map fun x => { c with serverVersion? := x }
  | "placeholders" => (readPlaceholders v).map fun x => { c with placeholders := x }
  | "log_max_length" => (readLimit v).map fun x => { c with logLimit? := x }
  | _ => .ok c

/-- The names of the options. -/
def optionNames : List String := ["server_version", "placeholders", "log_max_length"]

/-- The configuration with more options.  None may stand twice. -/
def withOptions (c : Config) (seen : List String) : List (Yaml × Yaml) → Except OptionError Config
  | [] => .ok c
  | (k, v) :: rest => do
    match k.untagged with
    | .string name =>
      if optionNames.contains name && seen.contains name then throw .malformed
      withOptions (← c.withOption name v) (name :: seen) rest
    | _ => throw .malformed

/-- Reads the options of a configuration.  Null has none. -/
def ofYaml (v : Yaml) : Except OptionError Config :=
  match v.untagged with
  | .null => .ok {}
  | .mapping fields => withOptions {} [] fields
  | _ => .error .malformed

/-- Reads a configuration from text. -/
def ofText (lookup : String → Option String) (text : String) : Except ReadError Config := do
  match Yaml.ofText? text with
  | none => throw .notYaml
  | some v => (ofYaml (← expandTexts lookup v)).mapError .options

/-- The version of the server, the latest unless the configuration has one. -/
def version (c : Config) : Except Version.ReadError Version :=
  match c.serverVersion? with
  | some s => Version.ofString? s
  | none => .ok .latest

/-! ### Writing -/

/-- A configuration as JSON. -/
def toJson (c : Config) : Json :=
  .object [("server_version", .ofOption .string c.serverVersion?),
    ("placeholders", c.placeholders.name), ("log_max_length", .ofOption .nat c.logLimit?)]

/-- A value that may be missing, as messages show it. -/
def shownOption : Option String → String
  | some s => "Some(" ++ s ++ ")"
  | none => "None"

/-- A configuration as messages show it. -/
def shown (c : Config) : String :=
  let placeholders := match c.placeholders with
    | .positional => "Positional"
    | .named => "Named"
  "CompilerConfig \x7b server_version: " ++ shownOption (c.serverVersion?.map Text.shown)
    ++ ", placeholders: " ++ placeholders
    ++ ", log_max_length: " ++ shownOption (c.logLimit?.map toString) ++ " \x7d"

end Config

end QueryLoom
