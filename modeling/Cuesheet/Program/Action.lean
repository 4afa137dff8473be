import Cuesheet.Stmt.Format

/-!
# Actions

An action is a named list of statements with parameters. An endable action has two lists, one to
start it and one to end it. An event action runs when an event is broadcast.
-/

set_option autoImplicit false

namespace Cuesheet

/-- A parameter of an action; its type is a remark for the reader. -/
structure ActionParameter where
  name : String
  type : Option String
  location : Location

/-- What an action does. -/
inductive ActionBody where
  | regular (operations : List Stmt)
  | endable (start finish : List Stmt)

namespace ActionBody

def start : ActionBody → List Stmt
  | regular operations => operations
  | endable start _ => start

def finish : ActionBody → List Stmt
  | regular _ => []
  | endable _ finish => finish

def isEndable : ActionBody → Bool
  | regular _ => false
  | endable _ _ => true

end ActionBody

/-- An action of a program or a library. -/
structure Action where
  name : String
  parameters : List ActionParameter
  body : ActionBody
  location : Location

namespace Action

/-- The names of the parameters, in order. -/
def parameterNames (a : Action) : List String := a.parameters.map (·.name)

def isEndable (a : Action) : Bool := a.body.isEndable

end Action

/-- An action that handles an event. -/
structure EventAction where
  name : String
  eventName : String
  eventTopic : Option String
  parameters : List ActionParameter
  operations : List Stmt
  location : Location

/-! ## As JSON -/

namespace ActionParameter

def toJson (p : ActionParameter) : Json :=
  .object [("name", .string p.name), ("type", .ofString? p.type), ("location", p.location.toJson)]

def ofJson? (j : Json) : Option ActionParameter := do
  match ← j.fields? ["name", "type", "location"] with
  | [name, type, location] =>
    return {
      name := ← Json.required Json.string? name
      type := ← Json.optional Json.string? type
      location := ← Location.ofField? location }
  | _ => none

/-- Reads the field of a record that holds parameters. -/
def listOfField? (field : Option Json) : Option (List ActionParameter) :=
  Json.withDefault (Json.listOf? ofJson?) [] field

end ActionParameter

namespace ActionBody

/-- The kinds of body, in the order of the language's own list. -/
def kinds : List String := ["Regular", "Endable"]

def toJson : ActionBody → Json
  | regular operations => .node "Regular" [("operations", .array (Stmt.listToJson operations))]
  | endable start finish =>
    .node "Endable" [("startOperations", .array (Stmt.listToJson start)),
      ("endOperations", .array (Stmt.listToJson finish))]

def ofJson? (nested : Bool) (j : Json) : Option ActionBody := do
  let (kind, record) ← Json.tagged? nested kinds j
  match kind with
  | "Regular" =>
    match ← record.fields? ["operations"] with
    | [operations] => return .regular (← Stmt.listOfField? operations)
    | _ => none
  | "Endable" =>
    match ← record.fields? ["startOperations", "endOperations"] with
    | [start, finish] => return .endable (← Stmt.listOfField? start) (← Stmt.listOfField? finish)
    | _ => none
  | _ => none

end ActionBody

namespace Action

def fieldNames : List String := ["name", "parameters", "body", "location"]

def toFields (a : Action) : List (String × Json) :=
  [("name", .string a.name), ("parameters", .array (a.parameters.map (·.toJson))),
    ("body", a.body.toJson), ("location", a.location.toJson)]

def toJson (a : Action) : Json := .object a.toFields

def ofJson? (nested : Bool) (j : Json) : Option Action := do
  match ← j.fields? fieldNames with
  | [name, parameters, body, location] =>
    return {
      name := ← Json.required Json.string? name
      parameters := ← ActionParameter.listOfField? parameters
      body := ← Json.required (ActionBody.ofJson? nested) body
      location := ← Location.ofField? location }
  | _ => none

end Action

namespace EventAction

def toFields (a : EventAction) : List (String × Json) :=
  [("name", .string a.name), ("eventName", .string a.eventName),
    ("eventTopic", .ofString? a.eventTopic),
    ("parameters", .array (a.parameters.map (·.toJson))),
    ("operations", .array (Stmt.listToJson a.operations)), ("location", a.location.toJson)]

def ofJson? (j : Json) : Option EventAction := do
  match ← j.fields?
      ["name", "eventName", "eventTopic", "parameters", "operations", "location"] with
  | [name, eventName, eventTopic, parameters, operations, location] =>
    return {
      name := ← Json.required Json.string? name
      eventName := ← Json.required Json.string? eventName
      eventTopic := ← Json.optional Json.string? eventTopic
      parameters := ← ActionParameter.listOfField? parameters
      operations := ← Stmt.listOfField? operations
      location := ← Location.ofField? location }
  | _ => none

end EventAction

end Cuesheet
