import Cuesheet.Engine.Config

/-!
# Engine configurations as JSON

Writing and reading of finished configurations, whose identities are texts. The topic of an event
is left out when there is none; every other field is always written.
-/

set_option autoImplicit false

namespace Cuesheet.Engine

open Json (required withDefault optional listOf?)

namespace Operation

def toJson (o : Operation String) : Json :=
  .object [("id", .string o.id), ("systemName", .string o.name), ("operationData", .object o.data)]

def ofJson? (j : Json) : Option (Operation String) := do
  match ← j.fields? ["id", "systemName", "operationData"] with
  | [id, name, data] =>
    return {
      id := ← required Json.string? id
      name := ← required Json.string? name
      data := ← required Json.entries? data }
  | _ => none

def listToJson (operations : List (Operation String)) : Json := .array (operations.map toJson)

end Operation

namespace Action

def toJson (a : Action String) : Json :=
  .object [("id", .string a.id), ("name", .string a.name),
    ("startOperations", Operation.listToJson a.start),
    ("endOperations", Operation.listToJson a.finish)]

def ofJson? (j : Json) : Option (Action String) := do
  match ← j.fields? ["id", "name", "startOperations", "endOperations"] with
  | [id, name, start, finish] =>
    return {
      id := ← required Json.string? id
      name := ← required Json.string? name
      start := ← required (listOf? Operation.ofJson?) start
      finish := ← required (listOf? Operation.ofJson?) finish }
  | _ => none

end Action

namespace EventAction

def toJson (a : EventAction String) : Json :=
  .object ([("id", .string a.id), ("name", .string a.name), ("eventName", .string a.eventName)] ++
    (match a.eventTopic with
      | some topic => [("eventTopic", .string topic)]
      | none => []) ++
    [("startOperations", Operation.listToJson a.start)])

def ofJson? (j : Json) : Option (EventAction String) := do
  match ← j.fields? ["id", "name", "eventName", "eventTopic", "startOperations"] with
  | [id, name, eventName, eventTopic, start] =>
    return {
      id := ← required Json.string? id
      name := ← required Json.string? name
      eventName := ← required Json.string? eventName
      eventTopic := ← optional Json.string? eventTopic
      start := ← required (listOf? Operation.ofJson?) start }
  | _ => none

end EventAction

namespace Window

def toJson (w : Window) : Json := .object [("start", .ofFloat w.start), ("end", .ofFloat w.finish)]

/-- Reads a window; whether its times fit together is not asked here. -/
def ofJson? (j : Json) : Option Window := do
  match ← j.fields? ["start", "end"] with
  | [start, finish] =>
    return { start := ← required Json.number? start, finish := ← required Json.number? finish }
  | _ => none

end Window

namespace TimelineAction

def toJson (a : TimelineAction String) : Json :=
  .object [("id", .string a.id), ("name", .string a.name), ("duration", a.window.toJson),
    ("startOperations", Operation.listToJson a.start),
    ("endOperations", Operation.listToJson a.finish)]

def ofJson? (j : Json) : Option (TimelineAction String) := do
  match ← j.fields? ["id", "name", "duration", "startOperations", "endOperations"] with
  | [id, name, window, start, finish] =>
    return {
      id := ← required Json.string? id
      name := ← required Json.string? name
      window := ← required Window.ofJson? window
      start := ← required (listOf? Operation.ofJson?) start
      finish := ← required (listOf? Operation.ofJson?) finish }
  | _ => none

end TimelineAction

namespace TimelineType

def ofJson? (j : Json) : Option TimelineType :=
  (Json.keyword? false j).bind fun text => all.find? (·.name = text)

end TimelineType

namespace Timeline

def toJson (t : Timeline String) : Json :=
  .object [("id", .string t.id), ("uri", .ofString? t.uri), ("type", .string t.type.name),
    ("duration", .ofFloat t.duration), ("loop", .bool t.loops), ("selector", .string t.selector),
    ("timelineActions", .array (t.actions.map (·.toJson)))]

def ofJson? (j : Json) : Option (Timeline String) := do
  match ← j.fields?
      ["id", "uri", "type", "duration", "loop", "selector", "timelineActions"] with
  | [id, uri, type, duration, loops, selector, actions] =>
    return {
      id := ← required Json.string? id
      uri := ← optional Json.string? uri
      type := ← required TimelineType.ofJson? type
      duration := ← required Json.number? duration
      loops := ← required Json.bool? loops
      selector := ← required Json.string? selector
      actions := ← required (listOf? TimelineAction.ofJson?) actions }
  | _ => none

end Timeline

namespace ProviderSetting

def toJson (p : ProviderSetting String) : Json :=
  .object [("id", .string p.id), ("systemName", .string p.name)]

def ofJson? (j : Json) : Option (ProviderSetting String) := do
  match ← j.fields? ["id", "systemName"] with
  | [id, name] =>
    return { id := ← required Json.string? id, name := ← required Json.string? name }
  | _ => none

end ProviderSetting

namespace LanguageLabel

def toJson (l : LanguageLabel) : Json :=
  .object [("languageCode", .string l.code), ("label", .string l.label)]

def ofJson? (j : Json) : Option LanguageLabel := do
  match ← j.fields? ["languageCode", "label"] with
  | [code, label] =>
    return { code := ← required Json.string? code, label := ← required Json.string? label }
  | _ => none

end LanguageLabel

namespace Config

def toJson (c : Config String) : Json :=
  .object [("id", .string c.id), ("engine", .object [("systemName", .string c.engine)]),
    ("containerSelector", .string c.containerSelector), ("language", .string c.language),
    ("availableLanguages", .array (c.availableLanguages.map (·.toJson))),
    ("layoutTemplate", .string c.layoutTemplate), ("cssFiles", .ofStrings c.cssFiles),
    ("initActions", .array (c.initActions.map (·.toJson))),
    ("actions", .array (c.actions.map (·.toJson))),
    ("eventActions", .array (c.eventActions.map (·.toJson))),
    ("timelines", .array (c.timelines.map (·.toJson))),
    ("timelineProviderSettings", .object (c.providers.map fun (type, p) => (type, p.toJson)))]

/-- Reads the record that names the engine. -/
def engine? (j : Json) : Option String := do
  match ← j.fields? ["systemName"] with
  | [name] => required Json.string? name
  | _ => none

def ofJson? (j : Json) : Option (Config String) := do
  match ← j.fields?
      ["id", "engine", "containerSelector", "language", "availableLanguages", "layoutTemplate",
        "cssFiles", "initActions", "actions", "eventActions", "timelines",
        "timelineProviderSettings"] with
  | [id, engine, containerSelector, language, availableLanguages, layoutTemplate, cssFiles,
      initActions, actions, eventActions, timelines, providers] =>
    return {
      id := ← required Json.string? id
      engine := ← required engine? engine
      containerSelector := ← required Json.string? containerSelector
      language := ← required Json.string? language
      availableLanguages := ← required (listOf? LanguageLabel.ofJson?) availableLanguages
      layoutTemplate := ← required Json.string? layoutTemplate
      cssFiles := ← required (listOf? Json.string?) cssFiles
      initActions := ← required (listOf? Action.ofJson?) initActions
      actions := ← required (listOf? Action.ofJson?) actions
      eventActions := ← required (listOf? EventAction.ofJson?) eventActions
      timelines := ← required (listOf? Timeline.ofJson?) timelines
      providers := ← required (Json.dictOf? ProviderSetting.ofJson?) providers }
  | _ => none

end Config

end Cuesheet.Engine
