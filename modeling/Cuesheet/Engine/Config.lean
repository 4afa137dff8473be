import Cuesheet.Json.Record

/-!
# Engine configurations

What the playback engine reads. Every entity carries an identity of type `ι`. While a program is
lowered, the identity of an entity is its source location; in a finished configuration it is a
text that no other entity has.
-/

set_option autoImplicit false

namespace Cuesheet.Engine

/-- One step for the engine. -/
structure Operation (ι : Type) where
  id : ι
  name : String
  data : Dict Json

/-- An action; one that does not end by itself has nothing to do at its end. -/
structure Action (ι : Type) where
  id : ι
  name : String
  start : List (Operation ι)
  finish : List (Operation ι)

/-- An action that handles an event. -/
structure EventAction (ι : Type) where
  id : ι
  name : String
  eventName : String
  eventTopic : Option String
  start : List (Operation ι)

/-- The time in which an action is active, in seconds. -/
structure Window where
  start : Float
  finish : Float

namespace Window

/-- A window from `start` to `finish`: neither may be negative, undefined or infinite, and the end
must not precede the start. -/
def ofTimes? (start finish : Float) : Option Window :=
  if start ≥ 0.0 && finish ≥ start && finish.isFinite then some ⟨start, finish⟩ else none

/-- How long the window is. -/
def length (w : Window) : Float := w.finish - w.start

end Window

/-- An action at its place on a timeline. -/
structure TimelineAction (ι : Type) where
  id : ι
  name : String
  window : Window
  start : List (Operation ι)
  finish : List (Operation ι)

/-- The families of timeline drivers that the engine knows. -/
inductive TimelineType where
  | animation | mediaplayer
  deriving Repr, DecidableEq

namespace TimelineType

def all : List TimelineType := [animation, mediaplayer]

def name : TimelineType → String
  | animation => "animation"
  | mediaplayer => "mediaplayer"

/-- The engine's class for timelines of a family. -/
def providerName : TimelineType → String
  | animation => "RequestAnimationFrameTimelineProvider"
  | mediaplayer => "MediaElementTimelineProvider"

end TimelineType

/-- A timeline with its actions. -/
structure Timeline (ι : Type) where
  id : ι
  uri : Option String
  type : TimelineType
  duration : Float
  loops : Bool
  selector : String
  actions : List (TimelineAction ι)

/-- The driver for one family of timelines. -/
structure ProviderSetting (ι : Type) where
  id : ι
  name : String

/-- A language offered to the user. -/
structure LanguageLabel where
  code : String
  label : String
  deriving Repr, DecidableEq

/-- A whole configuration. -/
structure Config (ι : Type) where
  id : ι
  engine : String
  containerSelector : String
  language : String
  availableLanguages : List LanguageLabel
  layoutTemplate : String
  cssFiles : List String
  initActions : List (Action ι)
  actions : List (Action ι)
  eventActions : List (EventAction ι)
  timelines : List (Timeline ι)
  providers : Dict (ProviderSetting ι)

namespace Config

variable {ι : Type}

/-- Every operation, in the order of the document. -/
def operations (c : Config ι) : List (Operation ι) :=
  ((c.initActions ++ c.actions).flatMap fun a => a.start ++ a.finish) ++
    c.eventActions.flatMap (·.start) ++
    c.timelines.flatMap fun t => t.actions.flatMap fun a => a.start ++ a.finish

/-- Every identity with the kind of entity it belongs to. -/
def ids (c : Config ι) : List (ι × String) :=
  [(c.id, "config")] ++
    ((c.initActions ++ c.actions).map fun a => (a.id, "action")) ++
    (c.eventActions.map fun a => (a.id, "eventAction")) ++
    (c.timelines.flatMap fun t =>
      (t.id, "timeline") :: t.actions.map fun a => (a.id, "timelineAction")) ++
    ((Dict.values c.providers).map fun p => (p.id, "timelineProvider")) ++
    c.operations.map fun o => (o.id, "operation")

end Config

/-! ## Changing identities -/

section

variable {ι κ : Type}

def Operation.map (f : ι → κ) (o : Operation ι) : Operation κ := { o with id := f o.id }

def Action.map (f : ι → κ) (a : Action ι) : Action κ :=
  { id := f a.id, name := a.name, start := a.start.map (·.map f), finish := a.finish.map (·.map f) }

def EventAction.map (f : ι → κ) (a : EventAction ι) : EventAction κ :=
  { id := f a.id, name := a.name, eventName := a.eventName, eventTopic := a.eventTopic
    start := a.start.map (·.map f) }

def TimelineAction.map (f : ι → κ) (a : TimelineAction ι) : TimelineAction κ :=
  { id := f a.id, name := a.name, window := a.window, start := a.start.map (·.map f)
    finish := a.finish.map (·.map f) }

def Timeline.map (f : ι → κ) (t : Timeline ι) : Timeline κ :=
  { id := f t.id, uri := t.uri, type := t.type, duration := t.duration, loops := t.loops
    selector := t.selector, actions := t.actions.map (·.map f) }

def ProviderSetting.map (f : ι → κ) (p : ProviderSetting ι) : ProviderSetting κ :=
  { p with id := f p.id }

def Config.map (f : ι → κ) (c : Config ι) : Config κ :=
  { id := f c.id, engine := c.engine, containerSelector := c.containerSelector
    language := c.language, availableLanguages := c.availableLanguages
    layoutTemplate := c.layoutTemplate, cssFiles := c.cssFiles
    initActions := c.initActions.map (·.map f), actions := c.actions.map (·.map f)
    eventActions := c.eventActions.map (·.map f), timelines := c.timelines.map (·.map f)
    providers := List.map (fun entry => (entry.1, entry.2.map f)) c.providers }

end

end Cuesheet.Engine
