import Cuesheet.Engine.Config
import Cuesheet.Json.Basic

/-!
# The schema of a configuration

A description of configurations for other programs, in the vocabulary of JSON Schema. Names stand
in alphabetical order.
-/

set_option autoImplicit false

namespace Cuesheet.Engine.Schema

/-- A value of the named basic type. -/
def basic (type : String) : Json := .object [("type", .string type)]

def text : Json := basic "string"

/-- A text or null. -/
def optionalText : Json := .object [("type", .ofStrings ["string", "null"])]

/-- A truth value. -/
def boolean : Json := basic "boolean"

def number : Json := .object [("type", .string "number"), ("format", .string "double")]

/-- What the named definition describes. -/
def reference (definition : String) : Json :=
  .object [("$ref", .string ("#/definitions/" ++ definition))]

/-- An array. -/
def list (items : Json) : Json := .object [("type", .string "array"), ("items", items)]

/-- An object with any names. -/
def dictionary (values : Json) : Json :=
  .object [("type", .string "object"), ("additionalProperties", values)]

/-- A field of a record: its name, what it holds, and whether it has to be there. -/
structure Field where
  name : String
  holds : Json
  isRequired : Bool

/-- A field that has to be there. -/
def needed (name : String) (holds : Json) : Field := ⟨name, holds, true⟩

/-- A field that may be missing. -/
def extra (name : String) (holds : Json) : Field := ⟨name, holds, false⟩

/-- The schema of a record, without its description. -/
def recordFields (fields : List Field) : List (String × Json) :=
  [("type", .string "object"),
    ("required", .ofStrings ((fields.filter (·.isRequired)).map (·.name))),
    ("properties", .object (fields.map fun f => (f.name, f.holds)))]

/-- The schema of a record. -/
def record (fields : List Field) : Json := .object (recordFields fields)

/-- A schema with a description. -/
def described (description : String) (fields : List (String × Json)) : Json :=
  .object (("description", .string description) :: fields)

/-- A list of operations. -/
def operations : Json := list (reference "OperationConfig")

/-- The definitions that the schema refers to. -/
def definitions : List (String × Json) := [
  ("Duration", described "Active window of a timeline action, in seconds."
    (recordFields [needed "end" number, needed "start" number])),
  ("EndableActionConfig", described
    "A named action with start and end halves. Regular actions have an empty end list."
    (recordFields [needed "endOperations" operations, needed "id" text, needed "name" text,
      needed "startOperations" operations])),
  ("EngineInfo", record [needed "systemName" text]),
  ("EventActionConfig", record [needed "eventName" text, extra "eventTopic" optionalText,
    needed "id" text, needed "name" text, needed "startOperations" operations]),
  ("LanguageLabel", record [needed "label" text, needed "languageCode" text]),
  ("OperationConfig", described "One call of a runtime operation."
    (recordFields [needed "id" text, needed "operationData" (dictionary (.bool true)),
      needed "systemName" text])),
  ("TimelineActionConfig", record [needed "duration" (reference "Duration"),
    needed "endOperations" operations, needed "id" text, needed "name" text,
    needed "startOperations" operations]),
  ("TimelineConfig", record [needed "duration" number, needed "id" text, needed "loop" boolean,
    needed "selector" text, needed "timelineActions" (list (reference "TimelineActionConfig")),
    needed "type" (reference "TimelineType"), extra "uri" optionalText]),
  ("TimelineProviderSetting", record [needed "id" text, needed "systemName" text]),
  ("TimelineType", described "Timeline driver family understood by the engine."
    [("type", .string "string"), ("enum", .ofStrings (TimelineType.all.map (·.name)))])]

/-- The fields of a configuration. -/
def configFields : List Field := [
  needed "actions" (list (reference "EndableActionConfig")),
  needed "availableLanguages" (list (reference "LanguageLabel")),
  needed "containerSelector" text,
  needed "cssFiles" (list text),
  needed "engine" (reference "EngineInfo"),
  needed "eventActions" (list (reference "EventActionConfig")),
  needed "id" text,
  needed "initActions" (list (reference "EndableActionConfig")),
  needed "language" text,
  needed "layoutTemplate" text,
  needed "timelineProviderSettings" (dictionary (reference "TimelineProviderSetting")),
  needed "timelines" (list (reference "TimelineConfig"))]

/-- The schema of a configuration. -/
def config : Json :=
  .object ([("$schema", .string "http://json-schema.org/draft-07/schema#"),
      ("title", .string "EngineConfig"),
      ("description", .string "The configuration object handed to the playback engine.")] ++
    recordFields configFields ++ [("definitions", .object definitions)])

end Cuesheet.Engine.Schema
