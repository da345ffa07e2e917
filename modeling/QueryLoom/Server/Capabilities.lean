/-
  QueryLoom/Server/Capabilities.lean
  ==================================
  **What a server can do.**  A feature has the first version that supports it, and the
  capabilities of a server follow from its version.
-/
import QueryLoom.Server.Version

namespace QueryLoom

/-- A feature that not every server has. -/
inductive Feature where
  | topLevelAny
  | booleanType
  | charToUuid
  | millisecondExtract
  | timeZones
deriving DecidableEq, Repr

namespace Feature

/-- Every feature. -/
def all : List Feature := [topLevelAny, booleanType, charToUuid, millisecondExtract, timeZones]

/-- The name of a feature. -/
def name : Feature → String
  | topLevelAny => "top-level Any"
  | booleanType => "BOOLEAN data type"
  | charToUuid => "CHAR_TO_UUID"
  | millisecondExtract => "EXTRACT(MILLISECOND)"
  | timeZones => "AT TIME ZONE"

/-- The first version that supports a feature. -/
def since : Feature → Version
  | topLevelAny => ⟨3, 0, 0, 0⟩
  | booleanType => ⟨3, 0, 0, 0⟩
  | charToUuid => ⟨2, 5, 0, 0⟩
  | millisecondExtract => ⟨2, 1, 0, 0⟩
  | timeZones => ⟨4, 0, 0, 0⟩

end Feature

/-- What a server can do. -/
structure Capabilities where
  version : Version
  topLevelAny : Bool
  booleanType : Bool
  oneBasedSubstring : Bool
  charToUuid : Bool
  millisecondExtract : Bool
  timeZones : Bool
  /-- The greatest number of characters of an identifier. -/
  maxIdentifier : Nat
deriving DecidableEq, Repr

namespace Capabilities

/-- The capabilities of a version. -/
def ofVersion (v : Version) : Capabilities where
  version := v
  topLevelAny := Feature.topLevelAny.since ≤ v
  booleanType := Feature.booleanType.since ≤ v
  oneBasedSubstring := true
  charToUuid := Feature.charToUuid.since ≤ v
  millisecondExtract := Feature.millisecondExtract.since ≤ v
  timeZones := Feature.timeZones.since ≤ v
  maxIdentifier := if (⟨4, 0, 0, 0⟩ : Version) ≤ v then 63 else 31

/-- Whether the server has a feature. -/
def supports (caps : Capabilities) : Feature → Bool
  | .topLevelAny => caps.topLevelAny
  | .booleanType => caps.booleanType
  | .charToUuid => caps.charToUuid
  | .millisecondExtract => caps.millisecondExtract
  | .timeZones => caps.timeZones

/-- The capabilities by name, in the order in which they are listed. -/
def flags (caps : Capabilities) : List (String × Bool) :=
  [("supports_top_level_any", caps.topLevelAny), ("supports_boolean_type", caps.booleanType),
    ("substring_is_one_based", caps.oneBasedSubstring),
    ("supports_char_to_uuid", caps.charToUuid),
    ("supports_millisecond_extract", caps.millisecondExtract),
    ("supports_time_zones", caps.timeZones)]

/-- Capabilities as messages show them. -/
def shown (caps : Capabilities) : String :=
  let flag := fun (name, b) => name ++ ": " ++ (if b then "true" else "false") ++ ", "
  "DialectCapabilities \x7b server_version: " ++ caps.version.shown ++ ", "
    ++ String.join (caps.flags.map flag)
    ++ "max_identifier_length: " ++ toString caps.maxIdentifier ++ " \x7d"

/-- Capabilities as JSON. -/
def toJson (caps : Capabilities) : Json :=
  .object ([("server_version", caps.version.toJson)]
    ++ caps.flags.map (fun f => (f.1, .bool f.2))
    ++ [("max_identifier_length", .nat caps.maxIdentifier)])

end Capabilities

end QueryLoom
