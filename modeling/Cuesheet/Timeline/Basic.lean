import Cuesheet.Timeline.Time
import Cuesheet.Stmt.Format

/-!
# Timelines

A timeline plays events inside one element of the page. An event runs an action in a given range
of times, runs several actions one after another, or runs one action for every element of a list
with a delay between the starts.
-/

set_option autoImplicit false

namespace Cuesheet

/-- What drives a timeline. -/
inductive Provider where
  | video | audio | raf | custom
  deriving Repr, DecidableEq

namespace Provider

/-- Every provider, in the order of the language's own list. -/
def all : List Provider := [video, audio, raf, custom]

def keyword : Provider → String
  | video => "video"
  | audio => "audio"
  | raf => "raf"
  | custom => "custom"

def ofJson? (nested : Bool) (j : Json) : Option Provider :=
  (Json.keyword? nested j).bind fun text => all.find? (·.keyword = text)

end Provider

/-- What an event runs. -/
inductive TimelineAction where
  | inline (start finish : List Stmt)
  | named (call : Call)

/-- One action of a sequence, for a given time. -/
structure SequenceItem where
  call : Call
  duration : TimeExpr
  location : Location

/-- An event of a timeline. -/
inductive TimelineEvent where
  | timed (start finish : TimeExpr) (action : TimelineAction) (location : Location)
  | sequence (items : List SequenceItem) (location : Location)
  | stagger (delay : TimeExpr) (items : Expr) (action : TimelineAction) (duration : TimeExpr)
      (location : Location)

/-- A timeline. -/
structure Timeline where
  name : String
  containerSelector : String
  provider : Provider
  source : Option String
  events : List TimelineEvent
  location : Location

/-! ## As JSON -/

namespace TimelineAction

/-- The kinds of action, in the order of the language's own list. -/
def kinds : List String := ["Inline", "Named"]

def toJson : TimelineAction → Json
  | inline start finish =>
    .node "Inline" [("startOperations", .array (Stmt.listToJson start)),
      ("endOperations", .array (Stmt.listToJson finish))]
  | named call => .node "Named" [("call", call.toJson)]

def ofJson? (j : Json) : Option TimelineAction := do
  let (kind, record) ← Json.tagged? true kinds j
  match kind with
  | "Inline" =>
    match ← record.fields? ["startOperations", "endOperations"] with
    | [start, finish] => return .inline (← Stmt.listOfField? start) (← Stmt.listOfField? finish)
    | _ => none
  | "Named" =>
    match ← record.fields? ["call"] with
    | [call] => return .named (← Json.required Call.ofJson? call)
    | _ => none
  | _ => none

end TimelineAction

namespace SequenceItem

def toJson (item : SequenceItem) : Json :=
  .object [("call", item.call.toJson), ("duration", item.duration.toJson),
    ("location", item.location.toJson)]

def ofJson? (j : Json) : Option SequenceItem := do
  match ← j.fields? ["call", "duration", "location"] with
  | [call, duration, location] =>
    return {
      call := ← Json.required Call.ofJson? call
      duration := ← Json.required TimeExpr.ofJson? duration
      location := ← Location.ofField? location }
  | _ => none

end SequenceItem

namespace TimelineEvent

/-- The kinds of event, in the order of the language's own list. -/
def kinds : List String := ["Timed", "Sequence", "Stagger"]

def toJson : TimelineEvent → Json
  | timed start finish action l =>
    .node "Timed" [("range", .object [("start", start.toJson), ("end", finish.toJson)]),
      ("action", action.toJson), ("location", l.toJson)]
  | sequence items l =>
    .node "Sequence" [("items", .array (items.map (·.toJson))), ("location", l.toJson)]
  | stagger delay items action duration l =>
    .node "Stagger" [("delay", delay.toJson), ("items", items.toJson), ("action", action.toJson),
      ("duration", duration.toJson), ("location", l.toJson)]

/-- Reads a range of times. -/
def range? (j : Json) : Option (TimeExpr × TimeExpr) := do
  match ← j.fields? ["start", "end"] with
  | [start, finish] =>
    return (← Json.required TimeExpr.ofJson? start, ← Json.required TimeExpr.ofJson? finish)
  | _ => none

def ofJson? (nested : Bool) (j : Json) : Option TimelineEvent := do
  let (kind, record) ← Json.tagged? nested kinds j
  match kind with
  | "Timed" =>
    match ← record.fields? ["range", "action", "location"] with
    | [range, action, location] =>
      let (start, finish) ← Json.required range? range
      return .timed start finish (← Json.required TimelineAction.ofJson? action)
        (← Location.ofField? location)
    | _ => none
  | "Sequence" =>
    match ← record.fields? ["items", "location"] with
    | [items, location] =>
      return .sequence (← Json.withDefault (Json.listOf? SequenceItem.ofJson?) [] items)
        (← Location.ofField? location)
    | _ => none
  | "Stagger" =>
    match ← record.fields? ["delay", "items", "action", "duration", "location"] with
    | [delay, items, action, duration, location] =>
      return .stagger (← Json.required TimeExpr.ofJson? delay)
        (← Json.required Expr.ofJson? items) (← Json.required TimelineAction.ofJson? action)
        (← Json.required TimeExpr.ofJson? duration) (← Location.ofField? location)
    | _ => none
  | _ => none

end TimelineEvent

namespace Timeline

def toFields (t : Timeline) : List (String × Json) :=
  [("name", .string t.name), ("containerSelector", .string t.containerSelector),
    ("provider", .string t.provider.keyword), ("source", .ofString? t.source),
    ("events", .array (t.events.map (·.toJson))), ("location", t.location.toJson)]

def ofJson? (nested : Bool) (j : Json) : Option Timeline := do
  match ← j.fields?
      ["name", "containerSelector", "provider", "source", "events", "location"] with
  | [name, containerSelector, provider, source, events, location] =>
    return {
      name := ← Json.required Json.string? name
      containerSelector := ← Json.required Json.string? containerSelector
      provider := ← Json.required (Provider.ofJson? nested) provider
      source := ← Json.optional Json.string? source
      events := ← Json.withDefault (Json.listOf? (TimelineEvent.ofJson? nested)) [] events
      location := ← Location.ofField? location }
  | _ => none

end Timeline

end Cuesheet
