import Cuesheet.Engine.Format
import Cuesheet.Engine.SourceMap
import Cuesheet.Json.Write
import Cuesheet.Number.Layout
import Cuesheet.Text.Blank

/-!
# Checking the shape of a configuration

The engine relies on a few facts about a configuration: three texts are not empty, there is a
timeline, every timeline has an id and a known type, every action's window ends after it starts,
and every id is unique and has a source location. All problems are collected, in document order.
-/

set_option autoImplicit false

namespace Cuesheet.Engine

/-- Something wrong with a configuration, and where. -/
structure Problem where
  path : String
  message : String
  deriving Repr, DecidableEq

namespace Problem

def text (p : Problem) : String := p.path ++ ": " ++ p.message

def toJson (p : Problem) : Json :=
  .object [("path", .string p.path), ("message", .string p.message)]

end Problem

namespace Check

def describe : Option Json → String
  | none => "nothing"
  | some j => j.compact

/-- The member `field` has to be a text that is not blank. -/
def textField (j : Json) (field path : String) : List Problem :=
  match (j.member? field).bind Json.string? with
  | some s => if Text.isBlankText s then [⟨path, "must not be empty"⟩] else []
  | none => [⟨path, "expected a string, got " ++ describe (j.member? field)⟩]

/-- The type of a timeline has to be a known one. -/
def typeField (timeline : Json) (path : String) : List Problem :=
  let known := TimelineType.all.map (·.name)
  match (timeline.member? "type").bind Json.string? with
  | some name => if known.contains name then [] else [problem known]
  | none => [problem known]
where
  /-- The problem of an unknown type. -/
  problem (known : List String) : Problem :=
    ⟨path ++ ".type", "expected one of " ++ ", ".intercalate known ++ ", got " ++
      describe (timeline.member? "type")⟩

/-- A window has to have a start and an end, in this order. -/
def window (duration : Option Json) (path : String) : List Problem :=
  let bound (name : String) : Option Float := do (← (← duration).member? name).number?
  match bound "start", bound "end" with
  | some start, some finish =>
    if finish ≥ start then []
    else
      [⟨path, "end (" ++ Number.messageText finish ++ ") precedes start (" ++
        Number.messageText start ++ ")"⟩]
  | _, _ => [⟨path, "start and end must be numbers"⟩]

/-- The windows of the actions of a timeline, from position `index` on. -/
def windowsFrom (path : String) (index : Nat) : List Json → List Problem
  | [] => []
  | action :: rest =>
    window (action.member? "duration")
        (path ++ ".timelineActions[" ++ toString index ++ "].duration") ++
      windowsFrom path (index + 1) rest

/-- One timeline. -/
def timeline (j : Json) (path : String) : List Problem :=
  textField j "id" (path ++ ".id") ++ typeField j path ++
    windowsFrom path 0 (((j.member? "timelineActions").bind Json.items?).getD [])

/-- The timelines from position `index` on. -/
def timelinesFrom (index : Nat) : List Json → List Problem
  | [] => []
  | j :: rest =>
    timeline j ("timelines[" ++ toString index ++ "]") ++ timelinesFrom (index + 1) rest

/-- A configuration as JSON. -/
def value (config : Json) : List Problem :=
  textField config "id" "id" ++ textField config "containerSelector" "containerSelector" ++
    textField config "language" "language" ++
    match (config.member? "timelines").bind Json.items? with
    | some (first :: rest) => timelinesFrom 0 (first :: rest)
    | _ => [⟨"timelines", "at least one timeline is required"⟩]

/-- The ids behind those that were `seen`: each has to be new and to have a location. -/
def idsFrom (map : SourceMap) (seen : List String) : List (String × String) → List Problem
  | [] => []
  | (id, kind) :: rest =>
    (if seen.contains id then [⟨kind ++ " " ++ id, "duplicate id"⟩] else []) ++
    (if map.contains id then [] else [⟨kind ++ " " ++ id, "missing from source map"⟩]) ++
    idsFrom map (id :: seen) rest

/-- A finished configuration with its source map. -/
def config (c : Config String) (map : SourceMap) : List Problem :=
  value c.toJson ++ idsFrom map [] c.ids

end Check

end Cuesheet.Engine
