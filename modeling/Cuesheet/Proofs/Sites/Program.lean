import Cuesheet.Compile
import Cuesheet.Proofs.Cues
import Cuesheet.Proofs.Numbering

/-!
# Where the entities of a configuration come from

The sites of a whole program: of its actions and event actions, of the actions that its timelines
schedule, of the timelines and their drivers, and of every operation. `Program.sites` lists them in
the order in which a configuration lists its identities, so that `Program.Drafted.ids_eq` can
compare the two lists place by place.
-/

set_option autoImplicit false

namespace Cuesheet

/-- The sites of an action of any kind: its own, and those of the operations of its two halves. -/
structure ActionSites where
  own : Site
  start : List Site
  finish : List Site

namespace ActionSites

/-- The sites of the operations, the start before the end. -/
def operations (sites : ActionSites) : List Site := sites.start ++ sites.finish

/-- An identity and the operations of two halves stand for the sites. -/
def Match (callables : Callables) (sites : ActionSites) (id : Location)
    (start finish : List DraftOperation) : Prop :=
  id = sites.own.location ∧ List.Forall₂ (Site.LoweredTo callables) sites.start start ∧
    List.Forall₂ (Site.LoweredTo callables) sites.finish finish

end ActionSites

/-! ## Actions and event actions -/

/-- The sites of an action. Its calls are written in the document that defines it. -/
def Callable.sites (callables : Callables) (globals : Globals) (c : Callable) : ActionSites :=
  let here : Surroundings := ⟨callables, c.origin⟩
  let scope := Scope.action globals c.action.parameterNames .named
  { own := .action c.action
    start := Stmt.sitesIn here scope.enterBlock c.action.body.start
    finish := Stmt.sitesIn here scope.enterBlock c.action.body.finish }

/-- The sites of an event action. -/
def EventAction.sites (callables : Callables) (globals : Globals) (a : EventAction) :
    ActionSites :=
  { own := .eventAction a
    start := Stmt.sitesIn ⟨callables, .program⟩
      (Scope.action globals (a.parameters.map (·.name)) .positional) a.operations
    finish := [] }

theorem Callable.lower_sites {callables : Callables} {globals : Globals} {name : String}
    {c : Callable} {a : Engine.Action Location} (h : c.lower callables globals name = .ok a) :
    (c.sites callables globals).Match callables a.id a.start a.finish := by
  obtain ⟨start, hstart, h⟩ := Except.bind_ok h
  obtain ⟨finish, hfinish, h⟩ := Except.bind_ok h
  cases h
  exact ⟨rfl, Stmt.lowerBlock_sites _ _ hstart, Stmt.lowerBlock_sites _ _ hfinish⟩

theorem EventAction.lower_sites {callables : Callables} {globals : Globals} {e : EventAction}
    {a : Engine.EventAction Location} (h : e.lower callables globals = .ok a) :
    (e.sites callables globals).Match callables a.id a.start [] := by
  obtain ⟨start, hstart, h⟩ := Except.bind_ok h
  cases h
  exact ⟨rfl, Stmt.lowerBlock_sites _ _ hstart, .nil⟩

/-- What stands in the first of two matching lists stands for something in the second. -/
theorem Lowered.exists_of_forall₂ {α β : Type} {R : α → β → Prop} {xs : List α} {ys : List β}
    (h : List.Forall₂ R xs ys) {x : α} (hx : x ∈ xs) : ∃ y ∈ ys, R x y := by
  induction h with
  | nil => exact absurd hx (by simp)
  | @cons first second xs ys hfirst _ ih =>
    rcases List.mem_cons.mp hx with rfl | hx
    · exact ⟨second, List.mem_cons_self, hfirst⟩
    · obtain ⟨y, hy, hR⟩ := ih hx
      exact ⟨y, List.mem_cons_of_mem _ hy, hR⟩

/-! ## Timelines -/

/-- The sites of what an event runs. A named action has an end of its own only if it is endable. -/
def TimelineAction.sites (here : Surroundings) (scope : Scope) (own : Site) :
    TimelineAction → ActionSites
  | .inline start finish =>
    ⟨own, Stmt.sitesIn here scope.enterBlock start, Stmt.sitesIn here scope.enterBlock finish⟩
  | .named c =>
    ⟨own, c.sites here.origin .start,
      match here.callables.find? here.origin c.name with
      | some found => if found.action.isEndable then c.sites here.origin .finish else []
      | none => []⟩

/-- The sites of the actions of a timeline, one for each of its turns. -/
def Timeline.sites (callables : Callables) (globals : Globals) (t : Timeline) : List ActionSites :=
  (t.turns globals).map fun turn =>
    turn.action.sites ⟨callables, .program⟩ (turn.scope (.top globals)) turn.own

/-- A timeline action stands for the sites. -/
def ActionSites.Schedules (callables : Callables) (sites : ActionSites)
    (a : DraftTimelineAction) : Prop :=
  sites.Match callables a.id a.start a.finish

/-- A named action on a timeline is called twice if it is endable: once to start it and once to end
it. The sites say the same in terms of the definition that the call finds. -/
theorem Call.lowerHalves_sites {here : Surroundings} {scope : Scope} {own : Site} {c : Call}
    {start finish : List DraftOperation}
    (h : c.lowerHalves here scope = .ok (start, finish)) :
    ((TimelineAction.named c).sites here scope own).Match here.callables own.location
      start finish := by
  unfold Call.lowerHalves at h
  cases hfound : here.callables.find? here.origin c.name with
  | none =>
    have haction : here.action? c.name = none := by simp [Surroundings.action?, hfound]
    rw [haction] at h
    exact absurd h (by simp)
  | some found =>
    have haction : here.action? c.name =
        some (here.callables.emittedName here.origin found, found.action) := by
      simp [Surroundings.action?, hfound]
    rw [haction] at h
    obtain ⟨first, hfirst, h⟩ := Except.bind_ok h
    simp only [TimelineAction.sites, hfound]
    -- The end is called only if there is one.
    split at h
    · rename_i hendable
      obtain ⟨second, hsecond, h⟩ := Except.bind_ok h
      cases h
      rw [if_pos hendable]
      exact ⟨rfl, invoke_sites hfound rfl hfirst, invoke_sites hfound rfl hsecond⟩
    · rename_i hendable
      cases h
      rw [if_neg hendable]
      exact ⟨rfl, invoke_sites hfound rfl hfirst, .nil⟩

/-- The site of a timeline action is the event or the item of a sequence that runs it, and a stagger
has one action for every element. So the site is not part of the action and is handed in. -/
theorem TimelineAction.lower_sites {here : Surroundings} {scope : Scope} {timeline : String}
    {index : Nat} {window : Engine.Window} (own : Site) {action : TimelineAction}
    {a : DraftTimelineAction}
    (h : action.lower here scope timeline index window own.location = .ok a) :
    (action.sites here scope own).Schedules here.callables a := by
  cases action with
  | inline start finish =>
    obtain ⟨first, hfirst, h⟩ := Except.bind_ok h
    obtain ⟨second, hsecond, h⟩ := Except.bind_ok h
    cases h
    exact ⟨rfl, Stmt.lowerBlock_sites _ _ hfirst, Stmt.lowerBlock_sites _ _ hsecond⟩
  | named c =>
    obtain ⟨⟨first, second⟩, hhalves, h⟩ := Except.bind_ok h
    cases h
    exact Call.lowerHalves_sites hhalves

/-- A lowered timeline stands for its source, and its actions for theirs. What the timeline runs,
and in which scope, is known from its turns (`Timeline.lower_turns`). -/
theorem Timeline.lower_sites {callables : Callables} {globals : Globals} {loops : Bool}
    {t : Timeline} {lowered : Engine.Timeline Location}
    (h : t.lower callables globals loops = .ok lowered) :
    lowered.id = t.location ∧ lowered.type = t.provider.timelineType ∧
      List.Forall₂ (ActionSites.Schedules callables) (t.sites callables globals)
        lowered.actions := by
  have hturns := lower_turns h
  obtain ⟨cues, actions, -, -, rfl⟩ := lower_eq_ok_iff.mp h
  refine ⟨rfl, rfl, List.forall₂_map_left_iff.mpr (hturns.imp ?_)⟩
  rintro turn a ⟨index, window, ha⟩
  exact TimelineAction.lower_sites turn.own ha

/-! ## Lists -/

/-- Lists are lowered item by item, and fail as soon as one item does. -/
theorem Callable.lowerList_eq_ok_iff {callables : Callables} {globals : Globals}
    {entries : List (String × Callable)} {actions : List (Engine.Action Location)} :
    lowerList callables globals entries = .ok actions ↔
      List.Forall₂ (fun entry a => entry.2.lower callables globals entry.1 = .ok a) entries
        actions :=
  Except.list_eq_ok_iff (lowerList callables globals) rfl fun _ _ => rfl

theorem EventAction.lowerList_eq_ok_iff {callables : Callables} {globals : Globals}
    {eventActions : List EventAction} {lowered : List (Engine.EventAction Location)} :
    lowerList callables globals eventActions = .ok lowered ↔
      List.Forall₂ (fun e a => e.lower callables globals = .ok a) eventActions lowered :=
  Except.list_eq_ok_iff (lowerList callables globals) rfl fun _ _ => rfl

theorem Timeline.lowerList_eq_ok_iff {callables : Callables} {globals : Globals} {loops : Bool}
    {timelines : List Timeline} {lowered : List (Engine.Timeline Location)} :
    lowerList callables globals loops timelines = .ok lowered ↔
      List.Forall₂ (fun t l => t.lower callables globals loops = .ok l) timelines lowered :=
  Except.list_eq_ok_iff (lowerList callables globals loops) rfl fun _ _ => rfl

/-! ## Drafts

What a draft is made of, once and for all: later proofs read the parts off `Parts.Of` or off
`Drafted` and do not open `Program.draft` again. -/

/-- The actions of a configuration under their names: those that the program sees, then helpers. -/
def Callables.entries (callables : Callables) : List (String × Callable) :=
  (callables.program.map fun c => (c.name, c)) ++
    callables.helpers.map fun c => (c.qualifiedName, c)

namespace Program

/-- The globals of a program. -/
def globals (p : Program) : Globals :=
  ⟨p.constants, p.declarations.foldl (fun names d =>
    if p.constants.contains d.name then names else addName names d.name) []⟩

/-- The first global that is set at run time. -/
def firstRuntimeGlobal? (p : Program) : Option Declaration :=
  p.declarations.find? fun d => !p.constants.contains d.name

/-- What a draft is put together from. -/
structure Parts where
  runtime : RuntimeGlobals
  actions : List (Engine.Action Location)
  eventActions : List (Engine.EventAction Location)
  timelines : List (Engine.Timeline Location)

/-- The draft that is put together from its parts. -/
def Parts.draft (parts : Parts) (p : Program) (assets : Assets) (settings : Settings) : Draft :=
  let selectors := parts.timelines.map (·.selector)
  { constants := p.constants
    config := {
      id := p.location
      engine := settings.engineName
      containerSelector := selectors.headD ""
      language := assets.language settings
      availableLanguages := assets.availableLanguages settings
      layoutTemplate := Layout.template assets selectors
      cssFiles := assets.styleSheets p
      initActions := parts.runtime.initActions
      actions := parts.actions
      eventActions := parts.eventActions
      timelines := parts.timelines
      providers := providersOf parts.timelines } }

/-- The parts are lowered from a program. -/
structure Parts.Of (parts : Parts) (p : Program) (documents : Documents) (settings : Settings) :
    Prop where
  runtime : RuntimeGlobals.collect p.constants .empty p.declarations = .ok parts.runtime
  actions : List.Forall₂ (fun entry a =>
      entry.2.lower (.ofProgram documents p) ⟨p.constants, parts.runtime.names⟩ entry.1 = .ok a)
    (Callables.ofProgram documents p).entries parts.actions
  eventActions : List.Forall₂ (fun e a =>
      e.lower (.ofProgram documents p) ⟨p.constants, parts.runtime.names⟩ = .ok a)
    p.eventActions parts.eventActions
  some_timeline : p.timelines ≠ []
  timelines : List.Forall₂ (fun t lowered => t.lower (.ofProgram documents p)
      ⟨p.constants, parts.runtime.names⟩ settings.timelineLoop = .ok lowered)
    p.timelines parts.timelines

/-- **A draft is put together from its parts, and it fails only where one of them does.** Both
directions are needed: later proofs take drafts apart, and reordering puts them together again. -/
theorem draft_eq_ok_iff {p : Program} {documents : Documents} {assets : Assets}
    {settings : Settings} {draft : Draft} :
    p.draft documents assets settings = .ok draft ↔
      ∃ parts : Parts, parts.Of p documents settings ∧ draft = parts.draft p assets settings := by
  constructor
  · intro h
    unfold Program.draft at h
    obtain ⟨runtime, hruntime, h⟩ := Except.bind_ok h
    obtain ⟨actions, hactions, h⟩ := Except.bind_ok h
    obtain ⟨eventActions, hevents, h⟩ := Except.bind_ok h
    by_cases hempty : p.timelines.isEmpty = true
    · rw [if_pos hempty] at h
      cases h
    · rw [if_neg hempty] at h
      obtain ⟨timelines, htimelines, h⟩ := Except.bind_ok h
      cases h
      exact ⟨⟨runtime, actions, eventActions, timelines⟩, {
        runtime := hruntime
        actions := Callable.lowerList_eq_ok_iff.mp hactions
        eventActions := EventAction.lowerList_eq_ok_iff.mp hevents
        some_timeline := by simpa using hempty
        timelines := Timeline.lowerList_eq_ok_iff.mp htimelines }, rfl⟩
  · -- Back again: every step of the draft is known, so it can be replaced by its result.
    rintro ⟨parts, hparts, rfl⟩
    have hactions := Callable.lowerList_eq_ok_iff.mpr hparts.actions
    have hevents := EventAction.lowerList_eq_ok_iff.mpr hparts.eventActions
    have htimelines := Timeline.lowerList_eq_ok_iff.mpr hparts.timelines
    unfold Program.draft
    show (RuntimeGlobals.collect p.constants .empty p.declarations >>= _) = _
    rw [hparts.runtime, Except.ok_bind]
    show (Callable.lowerList _ _ (Callables.ofProgram documents p).entries >>= _) = _
    rw [hactions, Except.ok_bind, hevents, Except.ok_bind,
      if_neg (by simpa using hparts.some_timeline), htimelines]
    rfl

/-- The configuration of a draft, each part lowered from its part of the program. -/
structure Drafted (p : Program) (documents : Documents) (settings : Settings)
    (config : Engine.Config Location) : Prop where
  id : config.id = p.location
  init : List.Forall₂ (fun (d : Declaration) (a : Engine.Action Location) => ∃ properties,
      a = ⟨d.location, initActionName,
        [⟨d.location, "setGlobalData", [("properties", .object properties)]⟩], []⟩)
    p.firstRuntimeGlobal?.toList config.initActions
  actions : List.Forall₂ (fun entry a =>
      entry.2.lower (.ofProgram documents p) p.globals entry.1 = .ok a)
    (Callables.ofProgram documents p).entries config.actions
  eventActions : List.Forall₂ (fun e a => e.lower (.ofProgram documents p) p.globals = .ok a)
    p.eventActions config.eventActions
  timelines : List.Forall₂ (fun t lowered =>
      t.lower (.ofProgram documents p) p.globals settings.timelineLoop = .ok lowered)
    p.timelines config.timelines
  some_timeline : p.timelines ≠ []
  providers : config.providers = providersOf config.timelines

end Program

/-- The names and the first location that collecting gives do not depend on the values, so they can
be said of the program alone. -/
theorem RuntimeGlobals.collect_ok {constants : Constants} :
    ∀ {declarations : List Declaration} {found result : RuntimeGlobals},
      collect constants found declarations = .ok result →
      result.names = declarations.foldl (fun names d =>
          if constants.contains d.name then names else addName names d.name) found.names ∧
        result.first = found.first.or
          ((declarations.find? fun d => !constants.contains d.name).map (·.location))
  | [], found, result, h => by
    cases h
    exact ⟨rfl, by simp⟩
  | d :: rest, found, result, h => by
    rw [collect] at h
    by_cases hd : constants.contains d.name = true
    · rw [if_pos hd] at h
      obtain ⟨hnames, hfirst⟩ := collect_ok h
      exact ⟨by simp [hnames, hd], by simp [hfirst, hd]⟩
    · rw [if_neg hd] at h
      obtain ⟨value, -, h⟩ := Except.bind_ok h
      obtain ⟨hnames, hfirst⟩ := collect_ok h
      refine ⟨by simp [hnames, hd], ?_⟩
      rw [hfirst]
      -- The first location stays the first.
      cases found.first <;> simp [hd]

/-- The init action stands for the first global that is set at run time. -/
theorem RuntimeGlobals.initActions_ok {p : Program} {runtime : RuntimeGlobals}
    (hfirst : runtime.first = p.firstRuntimeGlobal?.map (·.location)) :
    List.Forall₂ (fun (d : Declaration) (a : Engine.Action Location) => ∃ properties,
        a = ⟨d.location, initActionName,
          [⟨d.location, "setGlobalData", [("properties", .object properties)]⟩], []⟩)
      p.firstRuntimeGlobal?.toList runtime.initActions := by
  unfold initActions
  rw [hfirst]
  cases p.firstRuntimeGlobal? with
  | none => exact .nil
  | some d => exact .cons ⟨runtime.values, rfl⟩ .nil

/-- **A successful draft is lowered part by part.** This is `draft_eq_ok_iff` with the globals of
the program in place of those that were collected. -/
theorem Program.draft_ok {p : Program} {documents : Documents} {assets : Assets}
    {settings : Settings} {draft : Draft} (h : p.draft documents assets settings = .ok draft) :
    p.Drafted documents settings draft.config := by
  obtain ⟨parts, hparts, rfl⟩ := draft_eq_ok_iff.mp h
  obtain ⟨hnames, hfirst⟩ := RuntimeGlobals.collect_ok hparts.runtime
  have hglobals : (⟨p.constants, parts.runtime.names⟩ : Globals) = p.globals := by
    simp [globals, hnames, RuntimeGlobals.empty]
  have hset : parts.runtime.first = p.firstRuntimeGlobal?.map (·.location) := by
    rw [hfirst]
    simp [RuntimeGlobals.empty, firstRuntimeGlobal?]
  exact {
    id := rfl
    init := RuntimeGlobals.initActions_ok hset
    actions := hglobals ▸ hparts.actions
    eventActions := hglobals ▸ hparts.eventActions
    timelines := hglobals ▸ hparts.timelines
    some_timeline := hparts.some_timeline
    providers := rfl }

/-- What a draft becomes when its ids come from `supply`. -/
def Program.Draft.compiled (draft : Draft) (supply : Engine.IdSupply) (fixed : Option String) :
    Compiled :=
  let config := (draft.config.withIds supply fixed).1
  { config
    sourceMap := (draft.config.withIds supply fixed).2
    metadata := {
      compilerVersion
      timelineCount := config.timelines.length
      actionCount := config.actions.length
      operationCount := config.operations.length
      constantCount := draft.constants.bindings.length } }

/-- Behind the draft, all that can fail is the check of the data flow. -/
theorem Program.lower_of_draft {p : Program} {documents : Documents} {assets : Assets}
    {settings : Settings} {draft : Draft} (h : p.draft documents assets settings = .ok draft)
    (supply : Engine.IdSupply) :
    p.lower documents assets settings supply =
      (Engine.checkAll (draft.compiled supply settings.configId).sourceMap settings.seedEnd
        (draft.compiled supply settings.configId).config.halves).map
          fun _ => draft.compiled supply settings.configId := by
  unfold Program.lower
  rw [h]
  show (Engine.checkAll (draft.compiled supply settings.configId).sourceMap settings.seedEnd
    (draft.compiled supply settings.configId).config.halves >>=
      fun _ => .ok (draft.compiled supply settings.configId)) = _
  cases Engine.checkAll (draft.compiled supply settings.configId).sourceMap settings.seedEnd
    (draft.compiled supply settings.configId).config.halves <;> rfl

/-- A lowered program is its draft with ids, and its data flow is in order. -/
theorem Program.lower_ok {p : Program} {documents : Documents} {assets : Assets}
    {settings : Settings} {supply : Engine.IdSupply} {compiled : Compiled}
    (h : p.lower documents assets settings supply = .ok compiled) :
    ∃ draft, p.draft documents assets settings = .ok draft ∧
      compiled.config = (draft.config.withIds supply settings.configId).1 ∧
      compiled.sourceMap = (draft.config.withIds supply settings.configId).2 ∧
      Engine.checkAll compiled.sourceMap settings.seedEnd compiled.config.halves = .ok () := by
  unfold Program.lower at h
  obtain ⟨draft, hdraft, h⟩ := Except.bind_ok h
  obtain ⟨⟨⟩, hcheck, h⟩ := Except.bind_ok h
  cases h
  exact ⟨draft, hdraft, rfl, rfl, hcheck⟩

/-! ## Drivers -/

/-- The first timeline of every family of drivers. -/
def Timeline.leaders (timelines : List Timeline) : List Timeline :=
  timelines.foldl (fun kept t =>
    if kept.any (·.provider.timelineType = t.provider.timelineType) then kept else kept ++ [t]) []

theorem Engine.TimelineType.name_inj {a b : Engine.TimelineType} (h : a.name = b.name) : a = b := by
  cases a <;> cases b <;> first | rfl | exact absurd h (by decide)

/-- **Drivers stand where the first timeline of their family stands.** Later timelines of the family
use the same driver and leave its id and place as they are. -/
theorem providersOf_sites {timelines : List Timeline} {lowered : List (Engine.Timeline Location)}
    (h : List.Forall₂ (fun (t : Timeline) (l : Engine.Timeline Location) =>
      l.id = t.location ∧ l.type = t.provider.timelineType) timelines lowered) :
    List.Forall₂ (fun (t : Timeline) (entry : String × Engine.ProviderSetting Location) =>
        entry.1 = t.provider.timelineType.name ∧ entry.2.id = t.location)
      (Timeline.leaders timelines) (providersOf lowered) := by
  -- A family is among the leaders exactly if its name is among the drivers, so both folds keep or
  -- drop a timeline together.
  refine List.rel_foldl ?_ .nil h
  intro kept providers hkept t l hl
  have hhas : Dict.has providers l.type.name =
      kept.any (·.provider.timelineType = t.provider.timelineType) := by
    rw [hl.2, Bool.eq_iff_iff, Dict.has, Dict.isSome_get?_iff, List.any_eq_true]
    clear hl
    induction hkept with
    | nil => simp [Dict.keys]
    | @cons first entry kept providers hfirst _ ih =>
      have hname : t.provider.timelineType.name = entry.1 ↔
          first.provider.timelineType = t.provider.timelineType := by
        rw [hfirst.1]
        exact ⟨fun e => (Engine.TimelineType.name_inj e).symm, fun e => by rw [e]⟩
      simp only [Dict.keys, List.map_cons, List.mem_cons, hname] at ih ⊢
      simp [ih]
  dsimp only
  by_cases hseen : Dict.has providers l.type.name = true
  · rw [if_pos hseen, if_pos (hhas ▸ hseen)]
    exact hkept
  · have hfresh : l.type.name ∉ Dict.keys providers := fun hmem =>
      hseen (by rw [Dict.has]; exact Dict.isSome_get?_iff.mpr hmem)
    rw [if_neg hseen, if_neg (hhas ▸ hseen), Dict.set_of_not_mem_keys _ hfresh]
    exact List.rel_append hkept (.cons ⟨by rw [hl.2], hl.1⟩ .nil)

/-! ## All entities -/

namespace Program

variable (p : Program) (documents : Documents)

/-- The sites of the action that sets the globals, if there is one. -/
def initSites : List ActionSites :=
  p.firstRuntimeGlobal?.toList.map fun d => ⟨.global d, [.global d], []⟩

/-- The sites of the actions of a configuration, helpers last. -/
def actionSites : List ActionSites :=
  (Callables.ofProgram documents p).entries.map fun entry =>
    entry.2.sites (.ofProgram documents p) p.globals

/-- The sites of the event actions. -/
def eventSites : List ActionSites :=
  p.eventActions.map (EventAction.sites (.ofProgram documents p) p.globals)

/-- The sites of all operations, in the order in which a configuration lists them. -/
def operationSites : List Site :=
  (p.initSites ++ p.actionSites documents).flatMap ActionSites.operations ++
    (p.eventSites documents).flatMap ActionSites.start ++
    p.timelines.flatMap fun t =>
      (t.sites (.ofProgram documents p) p.globals).flatMap ActionSites.operations

/-- The sites of all entities with their kinds, in the order in which a configuration lists its
identities. -/
def sites : List (Site × String) :=
  [(.program p, "config")] ++
    ((p.initSites ++ p.actionSites documents).map fun s => (s.own, "action")) ++
    ((p.eventSites documents).map fun s => (s.own, "eventAction")) ++
    (p.timelines.flatMap fun t => (.timeline t, "timeline") ::
      (t.sites (.ofProgram documents p) p.globals).map fun s => (s.own, "timelineAction")) ++
    ((Timeline.leaders p.timelines).map fun t => (.timeline t, "timelineProvider")) ++
    (p.operationSites documents).map fun s => (s, "operation")

end Program

theorem ActionSites.Match.operations {callables : Callables} {sites : ActionSites} {id : Location}
    {start finish : List DraftOperation} (h : sites.Match callables id start finish) :
    List.Forall₂ (Site.LoweredTo callables) sites.operations (start ++ finish) :=
  List.rel_append h.2.1 h.2.2

namespace Program.Drafted

variable {p : Program} {documents : Documents} {settings : Settings}
  {config : Engine.Config Location}

/-- The action that sets the globals comes first, then those of the program and the helpers. -/
theorem actions_match (h : p.Drafted documents settings config) :
    List.Forall₂ (fun (sites : ActionSites) (a : Engine.Action Location) =>
        sites.Match (.ofProgram documents p) a.id a.start a.finish)
      (p.initSites ++ p.actionSites documents) (config.initActions ++ config.actions) := by
  refine List.rel_append ?_ ?_
  · refine List.forall₂_map_left_iff.mpr (h.init.imp ?_)
    rintro d _ ⟨properties, rfl⟩
    exact ⟨rfl, .cons ⟨rfl, .global⟩ .nil, .nil⟩
  · exact List.forall₂_map_left_iff.mpr (h.actions.imp fun _ _ => Callable.lower_sites)

theorem events_match (h : p.Drafted documents settings config) :
    List.Forall₂ (fun (sites : ActionSites) (a : Engine.EventAction Location) =>
        sites.Match (.ofProgram documents p) a.id a.start [])
      (p.eventSites documents) config.eventActions :=
  List.forall₂_map_left_iff.mpr (h.eventActions.imp fun _ _ => EventAction.lower_sites)

theorem timelines_match (h : p.Drafted documents settings config) :
    List.Forall₂ (fun (t : Timeline) (l : Engine.Timeline Location) =>
        l.id = t.location ∧ l.type = t.provider.timelineType ∧
          List.Forall₂ (ActionSites.Schedules (.ofProgram documents p))
            (t.sites (.ofProgram documents p) p.globals) l.actions)
      p.timelines config.timelines :=
  h.timelines.imp fun _ _ => Timeline.lower_sites

/-- **Every operation of a draft stands for its site**, place by place. The configuration lists
operations kind by kind and action by action, and the sites are listed in the same way. -/
theorem operations_match (h : p.Drafted documents settings config) :
    List.Forall₂ (Site.LoweredTo (.ofProgram documents p)) (p.operationSites documents)
      config.operations := by
  refine List.rel_append (List.rel_append ?_ ?_) ?_
  · exact List.rel_flatMap h.actions_match fun _ _ hm => hm.operations
  · exact List.rel_flatMap h.events_match fun _ _ hm => hm.2.1
  · refine List.rel_flatMap h.timelines_match fun t l hm => ?_
    exact List.rel_flatMap hm.2.2 fun _ _ ha => ha.operations

/-- **Every entity of a draft stands where its site stands**, place by place. Before numbering the
identity of an entity is its location, so the two lists can be compared directly. -/
theorem ids_eq (h : p.Drafted documents settings config) :
    (p.sites documents).map (fun site => (site.1.location, site.2)) = config.ids := by
  rw [← List.forall₂_eq_eq_eq, List.forall₂_map_left_iff]
  refine List.rel_append (List.rel_append (List.rel_append (List.rel_append (List.rel_append
    (.cons (by rw [h.id]; rfl) .nil) ?_) ?_) ?_) ?_) ?_
  · rw [List.forall₂_map_left_iff, List.forall₂_map_right_iff]
    exact h.actions_match.imp fun _ _ hm => by rw [hm.1]
  · rw [List.forall₂_map_left_iff, List.forall₂_map_right_iff]
    exact h.events_match.imp fun _ _ hm => by rw [hm.1]
  · refine List.rel_flatMap h.timelines_match fun t l hm => .cons (by rw [hm.1]; rfl) ?_
    rw [List.forall₂_map_left_iff, List.forall₂_map_right_iff]
    exact hm.2.2.imp fun _ _ ha => by rw [ha.1]
  · have hproviders := providersOf_sites (h.timelines_match.imp fun _ _ hm => ⟨hm.1, hm.2.1⟩)
    rw [h.providers, List.forall₂_map_left_iff, Dict.values, List.map_map,
      List.forall₂_map_right_iff]
    exact hproviders.imp fun _ _ hm => by rw [Function.comp, hm.2]; rfl
  · rw [List.forall₂_map_left_iff, List.forall₂_map_right_iff]
    exact h.operations_match.imp fun _ _ hm => by rw [hm.1]

end Program.Drafted

/-- Ids change neither the number nor the content of operations: whatever the ids, every operation
of a lowered program is one that its site emits. -/
theorem Program.lower_operations {p : Program} {documents : Documents} {assets : Assets}
    {settings : Settings} {supply : Engine.IdSupply} {compiled : Compiled}
    (h : p.lower documents assets settings supply = .ok compiled) :
    List.Forall₂ (fun (site : Site) (o : Engine.Operation String) =>
        site.Emits (.ofProgram documents p) o.name o.data)
      (p.operationSites documents) compiled.config.operations := by
  obtain ⟨draft, hdraft, hconfig, -, -⟩ := Program.lower_ok h
  obtain ⟨pairs, hpairs, hresult⟩ :=
    Engine.Config.number_pairs supply settings.configId draft.config ⟨0, .empty⟩
  have hmatch := (Program.draft_ok hdraft).operations_match
  rw [← hpairs, Engine.Config.operations_map, List.forall₂_map_right_iff] at hmatch
  have hcompiled : compiled.config = pairs.map Prod.fst := hconfig.trans hresult.symm
  rw [hcompiled, Engine.Config.operations_map, List.forall₂_map_right_iff]
  exact hmatch.imp fun _ _ hm => hm.2

end Cuesheet
