import Cuesheet.Assets
import Cuesheet.Lowering.Schedule

/-!
# Drafting a configuration

A program is lowered part by part: its globals, the actions it can call, the helpers behind them,
its event actions, and its timelines. The result is a configuration in which locations stand in
the place of ids.
-/

set_option autoImplicit false

namespace Cuesheet

/-- The name of the action that sets the globals. -/
def initActionName : String := "init-globals"

/-- The run-time globals behind the declarations that came before: their names, and their values
with the place of the first declaration. -/
structure RuntimeGlobals where
  names : List String
  values : Dict Json
  first : Option Location

namespace RuntimeGlobals

def empty : RuntimeGlobals := ⟨[], [], none⟩

/-- Lowers the declarations that are not constant. Each initialiser sees the globals before it. -/
def collect (constants : Constants) : RuntimeGlobals → List Declaration → Lowered RuntimeGlobals
  | found, [] => .ok found
  | found, d :: rest => do
    if constants.contains d.name then collect constants found rest
    else
      let value ← d.value.lower (Scope.top ⟨constants, found.names⟩)
      collect constants
        { names := addName found.names d.name
          values := Dict.set found.values d.name value
          first := found.first.or (some d.location) } rest

/-- The action that sets the globals, if there are any. -/
def initActions (found : RuntimeGlobals) : List (Engine.Action Location) :=
  match found.first with
  | none => []
  | some location =>
    [{ id := location, name := initActionName
       start := [⟨location, "setGlobalData", [("properties", .object found.values)]⟩]
       finish := [] }]

end RuntimeGlobals

/-- An action under the name that the configuration gives it. Its body sees the actions of the
document that defines it. -/
def Callable.lower (callables : Callables) (globals : Globals) (name : String) (c : Callable) :
    Lowered (Engine.Action Location) := do
  let here : Surroundings := ⟨callables, c.origin⟩
  let scope := Scope.action globals c.action.parameterNames .named
  let start ← Stmt.lowerBlock here scope.enterBlock c.action.body.start
  let finish ← Stmt.lowerBlock here scope.enterBlock c.action.body.finish
  return { id := c.action.location, name, start, finish }

/-- Actions under their names, one after another. -/
def Callable.lowerList (callables : Callables) (globals : Globals) :
    List (String × Callable) → Lowered (List (Engine.Action Location))
  | [] => .ok []
  | (name, c) :: rest => do
    let first ← c.lower callables globals name
    let others ← lowerList callables globals rest
    return first :: others

/-- An event action. Its parameters are the arguments of the event, by position. -/
def EventAction.lower (callables : Callables) (globals : Globals) (a : EventAction) :
    Lowered (Engine.EventAction Location) := do
  let here : Surroundings := ⟨callables, .program⟩
  let scope := Scope.action globals (a.parameters.map (·.name)) .positional
  let start ← Stmt.lowerBlock here scope a.operations
  return { id := a.location, name := a.name, eventName := a.eventName, eventTopic := a.eventTopic
           start }

/-- Event actions, one after another. -/
def EventAction.lowerList (callables : Callables) (globals : Globals) :
    List EventAction → Lowered (List (Engine.EventAction Location))
  | [] => .ok []
  | a :: rest => do
    let first ← a.lower callables globals
    let others ← lowerList callables globals rest
    return first :: others

/-- Timelines, one after another. -/
def Timeline.lowerList (callables : Callables) (globals : Globals) (loops : Bool) :
    List Timeline → Lowered (List (Engine.Timeline Location))
  | [] => .ok []
  | t :: rest => do
    let first ← t.lower callables globals loops
    let others ← lowerList callables globals loops rest
    return first :: others

/-- The drivers of the timelines: one for each family, placed where the first of them stands. -/
def providersOf (timelines : List (Engine.Timeline Location)) :
    Dict (Engine.ProviderSetting Location) :=
  timelines.foldl (fun providers t =>
    if Dict.has providers t.type.name then providers
    else Dict.set providers t.type.name ⟨t.id, t.type.providerName⟩) []

namespace Program

/-- The constants of a program. -/
def constants (p : Program) : Constants := .ofDeclarations p.declarations

/-- A draft and the globals it was made with. -/
structure Draft where
  config : Engine.Config Location
  constants : Constants

/-- The draft of a program. -/
def draft (p : Program) (documents : Documents) (assets : Assets) (settings : Settings) :
    Lowered Draft := do
  let constants := p.constants
  let callables := Callables.ofProgram documents p
  let runtime ← RuntimeGlobals.collect constants .empty p.declarations
  let globals : Globals := ⟨constants, runtime.names⟩
  let visible := callables.program.map fun c => (c.name, c)
  let helpers := callables.helpers.map fun c => (c.qualifiedName, c)
  let actions ← Callable.lowerList callables globals (visible ++ helpers)
  let eventActions ← EventAction.lowerList callables globals p.eventActions
  if p.timelines.isEmpty then .error ⟨.noTimeline, p.location⟩
  let timelines ← Timeline.lowerList callables globals settings.timelineLoop p.timelines
  let selectors := timelines.map (·.selector)
  return {
    constants
    config := {
      id := p.location
      engine := settings.engineName
      containerSelector := selectors.headD ""
      language := assets.language settings
      availableLanguages := assets.availableLanguages settings
      layoutTemplate := Layout.template assets selectors
      cssFiles := assets.styleSheets p
      initActions := runtime.initActions
      actions
      eventActions
      timelines
      providers := providersOf timelines } }

end Program

end Cuesheet
