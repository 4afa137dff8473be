import Cuesheet.Json.Record

/-!
# Settings of a compilation

Settings are read from a record in which every field may be missing.
-/

set_option autoImplicit false

namespace Cuesheet

/-- Where the ids of a configuration come from. -/
inductive IdStrategy where
  /-- Random ids. -/
  | uuid
  /-- Ids that count through all entities. -/
  | sequential
  deriving Repr, DecidableEq

namespace IdStrategy

/-- Every strategy, in the order of the settings' own list. -/
def all : List IdStrategy := [uuid, sequential]

def keyword : IdStrategy → String
  | uuid => "uuid"
  | sequential => "sequential"

def ofJson? (j : Json) : Option IdStrategy :=
  (Json.keyword? false j).bind fun text => all.find? (·.keyword = text)

end IdStrategy

/-- The settings of a compilation. -/
structure Settings where
  version : UInt32
  /-- A fixed id for the configuration, in place of a generated one. -/
  configId : Option String
  engineName : String
  defaultLanguage : String
  idStrategy : IdStrategy
  /-- Whether the end of an action may use what its start has written. -/
  seedEnd : Bool
  timelineLoop : Bool
  deriving Repr, DecidableEq

namespace Settings

/-- The newest version of the settings record. -/
def currentVersion : UInt32 := 1

def default : Settings :=
  { version := currentVersion, configId := none, engineName := "EligiusEngine"
    defaultLanguage := "en-US", idStrategy := .uuid, seedEnd := true, timelineLoop := false }

instance : Inhabited Settings := ⟨default⟩

/-- The settings for output that is the same on every run. -/
def deterministic : Settings := { default with idStrategy := .sequential }

def toJson (s : Settings) : Json :=
  .object [("version", .int s.version.toNat), ("config_id", .ofString? s.configId),
    ("engine_system_name", .string s.engineName), ("default_language", .string s.defaultLanguage),
    ("id_strategy", .string s.idStrategy.keyword), ("seed_end_operations", .bool s.seedEnd),
    ("timeline_loop", .bool s.timelineLoop)]

/-- Reads settings; what is missing is as in the default. -/
def ofJson? (j : Json) : Option Settings := do
  match ← j.fields?
      ["version", "config_id", "engine_system_name", "default_language", "id_strategy",
        "seed_end_operations", "timeline_loop"] with
  | [version, configId, engineName, defaultLanguage, idStrategy, seedEnd, timelineLoop] =>
    return {
      version := ← Json.withDefault Json.word? default.version version
      configId := ← Json.optional Json.string? configId
      engineName := ← Json.withDefault Json.string? default.engineName engineName
      defaultLanguage := ← Json.withDefault Json.string? default.defaultLanguage defaultLanguage
      idStrategy := ← Json.withDefault IdStrategy.ofJson? default.idStrategy idStrategy
      seedEnd := ← Json.withDefault Json.bool? default.seedEnd seedEnd
      timelineLoop := ← Json.withDefault Json.bool? default.timelineLoop timelineLoop }
  | _ => none

end Settings

end Cuesheet
