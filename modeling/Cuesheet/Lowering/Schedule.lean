import Cuesheet.Lowering.Block
import Cuesheet.Lowering.Time

/-!
# Lowering timelines

Every event becomes actions with windows. A cursor carries the end of what came before: times with
an offset count from it, a sequence starts at it, and the elements of a stagger start at it, each
one delay behind the one before.
-/

set_option autoImplicit false

namespace Cuesheet

/-- A timeline action that is not numbered yet. -/
abbrev DraftTimelineAction := Engine.TimelineAction Location

/-- What drives the timelines of a provider. -/
def Provider.timelineType : Provider → Engine.TimelineType
  | video | audio => .mediaplayer
  | raf | custom => .animation

/-- The later of two times; of equal ones, the second. -/
def laterTime (a b : Float) : Float := if a ≤ b then b else a

/-- The operations that start and end a named action. Only an endable action has any to end it. -/
def Call.lowerHalves (here : Surroundings) (scope : Scope) (c : Call) :
    Lowered (List DraftOperation × List DraftOperation) :=
  match here.action? c.name with
  | none =>
    let known := here.callables.program.map (·.name)
    .error ⟨.unknownAction c.name (Text.suggest c.name known), c.location⟩
  | some (name, action) => do
    let start ← invoke scope name action c.arguments .start c.location
    if action.isEndable then
      let finish ← invoke scope name action c.arguments .finish c.location
      return (start, finish)
    else return (start, [])

/-- What an event runs, in the given window. `timeline` is the name of the timeline and `index` how
many actions it has already. -/
def TimelineAction.lower (here : Surroundings) (scope : Scope) (timeline : String) (index : Nat)
    (window : Engine.Window) (location : Location) :
    TimelineAction → Lowered DraftTimelineAction
  | .inline start finish => do
    let start ← Stmt.lowerBlock here scope.enterBlock start
    let finish ← Stmt.lowerBlock here scope.enterBlock finish
    return { id := location, name := timeline ++ "-event-" ++ toString (index + 1), window
             start, finish }
  | .named call => do
    let (start, finish) ← call.lowerHalves here scope
    return { id := location, name := call.name, window, start, finish }

/-- The items of a sequence, the first one from the cursor on, with the new cursor. -/
def SequenceItem.lowerList (here : Surroundings) (scope : Scope) (timeline : String) :
    (index : Nat) → (cursor : Float) → List SequenceItem →
      Lowered (List DraftTimelineAction × Float)
  | _, cursor, [] => .ok ([], cursor)
  | index, cursor, item :: rest => do
    let finish := cursor + (← item.duration.duration)
    match Engine.Window.ofTimes? cursor finish with
    | none => .error ⟨.sequenceWindow, item.location⟩
    | some window =>
      let first ← (TimelineAction.named item.call).lower here scope timeline index window
        item.location
      let (others, last) ← lowerList here scope timeline (index + 1) finish rest
      return (first :: others, last)

/-- How the elements of a stagger are run. -/
structure Stagger where
  action : TimelineAction
  delay : Float
  duration : Float
  /-- Where the first element starts. -/
  base : Float
  location : Location

/-- The elements of a stagger from the `k`-th on, with the latest end. -/
def Stagger.lowerItems (here : Surroundings) (scope : Scope) (timeline : String)
    (stagger : Stagger) :
    (index k : Nat) → (latest : Float) → List Json → Lowered (List DraftTimelineAction × Float)
  | _, _, latest, [] => .ok ([], latest)
  | index, k, latest, item :: rest => do
    let start := stagger.base + Float.ofNat k * stagger.delay
    let finish := start + stagger.duration
    match Engine.Window.ofTimes? start finish with
    | none => .error ⟨.staggerWindow, stagger.location⟩
    | some window =>
      let first ← stagger.action.lower here (scope.withStaggerItem item) timeline index window
        stagger.location
      let (others, last) ← lowerItems here scope timeline stagger (index + 1) (k + 1)
        (laterTime latest finish) rest
      return (first :: others, last)

/-- The actions of an event and the new cursor. -/
def TimelineEvent.lower (here : Surroundings) (scope : Scope) (timeline : String) (index : Nat)
    (cursor : Float) : TimelineEvent → Lowered (List DraftTimelineAction × Float)
  | .timed start finish action location => do
    let start ← start.seconds cursor
    let finish ← finish.seconds cursor
    match Engine.Window.ofTimes? start finish with
    | none => .error ⟨.timeRange start finish, location⟩
    | some window =>
      let lowered ← action.lower here scope timeline index window location
      return ([lowered], finish)
  | .sequence items _ => SequenceItem.lowerList here scope timeline index cursor items
  | .stagger delay items action duration location => do
    let delay ← delay.duration
    let duration ← duration.duration
    match scope.fold? items with
    | some (.array values) =>
      let stagger : Stagger := { action, delay, duration, base := cursor, location }
      stagger.lowerItems here scope timeline index 0 cursor values
    | _ => .error ⟨.staggerItems, items.location⟩

/-- The actions of a list of events, one after another. -/
def TimelineEvent.lowerList (here : Surroundings) (scope : Scope) (timeline : String) :
    (index : Nat) → (cursor : Float) → List TimelineEvent → Lowered (List DraftTimelineAction)
  | _, _, [] => .ok []
  | index, cursor, event :: rest => do
    let (actions, cursor) ← event.lower here scope timeline index cursor
    let others ← lowerList here scope timeline (index + actions.length) cursor rest
    return actions ++ others

/-- A timeline with its actions; it lasts until the latest of them ends. -/
def Timeline.lower (callables : Callables) (globals : Globals) (loops : Bool) (t : Timeline) :
    Lowered (Engine.Timeline Location) := do
  let here : Surroundings := ⟨callables, .program⟩
  let actions ← TimelineEvent.lowerList here (Scope.top globals) t.name 0 0.0 t.events
  return {
    id := t.location
    uri := t.source
    type := t.provider.timelineType
    duration := actions.foldl (fun latest a => laterTime latest a.window.finish) 0.0
    loops
    selector := t.containerSelector
    actions }

end Cuesheet
