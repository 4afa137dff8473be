import Cuesheet.Proofs.Places
import Cuesheet.Proofs.References
import Cuesheet.Proofs.Sites.Program

/-!
# The item of the innermost loop

Inside a loop over `x`, the item can be written `x`, `@x` and `@@x`. Each form is looked up on its
own way through the scope. All of them ask for the item of the innermost loop before they ask for
anything that is declared, but `@@x` asks for the element of a stagger first.

`Program.bodies` lists the bodies of a program with the scopes they are lowered in, those of a
stagger once for every element. Together with the places in them these are the scopes that lowering
reaches (`Program.Drafted.bodies_lowered`). A place says itself what the innermost loop around it is
(`Place.loopItem?`), and no statement changes the element of a stagger, so both are known before
anything is lowered. The three forms mean the same except in a stagger, where `@@item` and
`@@currentItem` keep meaning its element, also if a loop calls its item so.
-/

set_option autoImplicit false

namespace Cuesheet

/-! ## Bodies -/

/-- A list of statements with the surroundings and the scope in which it is lowered. If it is run
for the elements of a stagger, `element` is the one it is lowered for. -/
structure Body where
  here : Surroundings
  scope : Scope
  element : Option Json
  statements : List Stmt

namespace Body

/-- The body can be lowered, and its operations are among the given ones. -/
def LoweredInto (operations : List DraftOperation) (b : Body) : Prop :=
  ∃ own, Stmt.lowerBlock b.here b.scope b.statements = .ok own ∧ own ⊆ operations

theorem LoweredInto.mono {operations more : List DraftOperation} {b : Body}
    (h : b.LoweredInto operations) (hmore : operations ⊆ more) : b.LoweredInto more := by
  obtain ⟨own, hown, hsub⟩ := h
  exact ⟨own, hown, List.Subset.trans hsub hmore⟩

end Body

/-- The bodies of an action. -/
def Callable.bodies (callables : Callables) (globals : Globals) (c : Callable) : List Body :=
  let scope := Scope.action globals c.action.parameterNames .named
  [⟨⟨callables, c.origin⟩, scope.enterBlock, none, c.action.body.start⟩,
    ⟨⟨callables, c.origin⟩, scope.enterBlock, none, c.action.body.finish⟩]

/-- The body of an event action. -/
def EventAction.body (callables : Callables) (globals : Globals) (a : EventAction) : Body :=
  ⟨⟨callables, .program⟩, Scope.action globals (a.parameters.map (·.name)) .positional, none,
    a.operations⟩

/-- The bodies of what an event runs. -/
def TimelineAction.bodies (here : Surroundings) (scope : Scope) (element : Option Json) :
    TimelineAction → List Body
  | .inline start finish =>
    [⟨here, scope.enterBlock, element, start⟩, ⟨here, scope.enterBlock, element, finish⟩]
  | .named _ => []

/-- The bodies of a timeline: those of a stagger once for every element. -/
def Timeline.bodies (callables : Callables) (globals : Globals) (t : Timeline) : List Body :=
  (t.turns globals).flatMap fun turn =>
    turn.action.bodies ⟨callables, .program⟩ (turn.scope (.top globals)) turn.element

/-- The bodies that a configuration is made of: those of actions and helpers, of event actions, and
of what timelines run. -/
def Program.bodies (p : Program) (documents : Documents) : List Body :=
  let callables := Callables.ofProgram documents p
  (callables.entries.flatMap fun entry => entry.2.bodies callables p.globals) ++
    p.eventActions.map (EventAction.body callables p.globals) ++
    p.timelines.flatMap (Timeline.bodies callables p.globals)

/-! ### The element of a body -/

theorem TimelineAction.staggerItem_of_mem_bodies {here : Surroundings} {scope : Scope}
    {element : Option Json} (helement : scope.staggerItem = element) {action : TimelineAction}
    {b : Body} (h : b ∈ action.bodies here scope element) : b.scope.staggerItem = b.element := by
  subst helement
  cases action with
  | inline start finish =>
    simp only [bodies, List.mem_cons, List.not_mem_nil, or_false] at h
    rcases h with rfl | rfl <;> rfl
  | named call => cases h

/-- A turn of a stagger has its element in the scope, and any other turn has none. -/
theorem Turn.staggerItem_scope (turn : Turn) (globals : Globals) :
    (turn.scope (.top globals)).staggerItem = turn.element := by
  unfold scope
  cases turn.element <;> rfl

/-- A scope has an element exactly where the body belongs to a stagger. -/
theorem Program.staggerItem_of_mem_bodies {p : Program} {documents : Documents} {b : Body}
    (h : b ∈ p.bodies documents) : b.scope.staggerItem = b.element := by
  simp only [bodies, List.mem_append, List.mem_flatMap, List.mem_map] at h
  rcases h with (⟨entry, -, h⟩ | ⟨e, -, rfl⟩) | ⟨t, -, h⟩
  · simp only [Callable.bodies, List.mem_cons, List.not_mem_nil, or_false] at h
    rcases h with rfl | rfl <;> rfl
  · rfl
  · obtain ⟨turn, -, h⟩ := List.mem_flatMap.mp h
    exact TimelineAction.staggerItem_of_mem_bodies (turn.staggerItem_scope _) h

/-! ### Bodies are lowered -/

/-- The operations of a body are those of the action it belongs to. The next lemmas say the same of
event actions and of what timelines run. -/
theorem Callable.bodies_lowered {callables : Callables} {globals : Globals} {name : String}
    {c : Callable} {a : Engine.Action Location} (h : c.lower callables globals name = .ok a) :
    ∀ b ∈ c.bodies callables globals, b.LoweredInto (a.start ++ a.finish) := by
  obtain ⟨start, hstart, h⟩ := Except.bind_ok h
  obtain ⟨finish, hfinish, h⟩ := Except.bind_ok h
  cases h
  simp only [bodies, List.forall_mem_cons]
  exact ⟨⟨start, hstart, List.subset_append_left _ _⟩,
    ⟨finish, hfinish, List.subset_append_right _ _⟩, List.forall_mem_nil _⟩

theorem EventAction.body_lowered {callables : Callables} {globals : Globals} {e : EventAction}
    {a : Engine.EventAction Location} (h : e.lower callables globals = .ok a) :
    (e.body callables globals).LoweredInto a.start := by
  obtain ⟨start, hstart, h⟩ := Except.bind_ok h
  cases h
  exact ⟨start, hstart, List.Subset.refl _⟩

theorem TimelineAction.bodies_lowered {here : Surroundings} {scope : Scope} {timeline : String}
    {index : Nat} {window : Engine.Window} {l : Location} {element : Option Json}
    {action : TimelineAction} {a : DraftTimelineAction}
    (h : action.lower here scope timeline index window l = .ok a) :
    ∀ b ∈ action.bodies here scope element, b.LoweredInto (a.start ++ a.finish) := by
  cases action with
  | inline start finish =>
    obtain ⟨first, hfirst, h⟩ := Except.bind_ok h
    obtain ⟨second, hsecond, h⟩ := Except.bind_ok h
    cases h
    simp only [bodies, List.forall_mem_cons]
    exact ⟨⟨first, hfirst, List.subset_append_left _ _⟩,
      ⟨second, hsecond, List.subset_append_right _ _⟩, List.forall_mem_nil _⟩
  | named c => exact List.forall_mem_nil _

/-- **Every body of a program is lowered, and its operations are in the configuration.** So the
scopes that are spoken of here are those that lowering reaches, and no others. -/
theorem Program.Drafted.bodies_lowered {p : Program} {documents : Documents} {settings : Settings}
    {config : Engine.Config Location} (h : p.Drafted documents settings config) {b : Body}
    (hb : b ∈ p.bodies documents) : b.LoweredInto config.operations := by
  simp only [bodies, List.mem_append, List.mem_flatMap, List.mem_map] at hb
  rcases hb with (⟨entry, hentry, hb⟩ | ⟨e, he, rfl⟩) | ⟨t, ht, hb⟩
  · obtain ⟨a, ha, hlower⟩ := Lowered.exists_of_forall₂ h.actions hentry
    refine (Callable.bodies_lowered hlower b hb).mono ?_
    intro o ho
    simp only [Engine.Config.operations, List.mem_append, List.mem_flatMap]
    exact .inl (.inl ⟨a, .inr ha, List.mem_append.mp ho⟩)
  · obtain ⟨a, ha, hlower⟩ := Lowered.exists_of_forall₂ h.eventActions he
    refine (EventAction.body_lowered hlower).mono ?_
    intro o ho
    simp only [Engine.Config.operations, List.mem_append, List.mem_flatMap]
    exact .inl (.inr ⟨a, ha, ho⟩)
  · obtain ⟨lowered, hlowered, hlower⟩ := Lowered.exists_of_forall₂ h.timelines ht
    -- A body on a timeline belongs to one of its turns, and each turn has become an action.
    obtain ⟨turn, hturn, hb⟩ := List.mem_flatMap.mp hb
    obtain ⟨a, ha, index, window, hturn⟩ :=
      Lowered.exists_of_forall₂ (Timeline.lower_turns hlower) hturn
    refine (TimelineAction.bodies_lowered hturn b hb).mono ?_
    intro o ho
    exact List.mem_append_right _ (List.mem_flatMap.mpr
      ⟨_, hlowered, List.mem_flatMap.mpr ⟨a, ha, ho⟩⟩)

/-! ## Scopes at places -/

namespace Scope

/-- The step enters an element of a stagger. -/
def Step.IsStagger : Step → Prop
  | withStaggerItem _ => True
  | _ => False

@[simp] theorem staggerItem_declare (scope : Scope) (d : Declaration) :
    (scope.declare d).staggerItem = scope.staggerItem := by
  unfold declare
  split <;> rfl

theorem staggerItem_take {scope : Scope} {step : Step} (h : ¬ step.IsStagger) :
    (scope.take step).staggerItem = scope.staggerItem := by
  cases step with
  | declare d => exact staggerItem_declare scope d
  | withStaggerItem item => exact absurd trivial h
  | enterBlock | enterLoop _ => rfl

theorem staggerItem_follow {scope : Scope} {steps : List Step}
    (h : ∀ step ∈ steps, ¬ step.IsStagger) :
    (scope.follow steps).staggerItem = scope.staggerItem := by
  induction steps generalizing scope with
  | nil => rfl
  | cons step steps ih =>
    rw [List.forall_mem_cons] at h
    rw [follow_cons, ih h.2, staggerItem_take h.1]

end Scope

/-- Passing the statements in front of a place, a scope changes by declarations only. What happens
inside of branches and loops stays there. -/
theorem Stmt.declare_of_mem_stepsIn {body : List Stmt} {step : Scope.Step}
    (h : step ∈ stepsIn body) : ∃ d, step = .declare d := by
  obtain ⟨s, -, h⟩ := List.mem_flatMap.mp h
  cases s with
  | declaration d => exact ⟨d, List.mem_singleton.mp h⟩
  | call _ | branch _ _ _ _ | loop _ _ _ _ | breakLoop _ | continueLoop _ => cases h

/-- The item of the loop, if it is one. -/
def Frame.loopItem? : Frame → Option String
  | inLoop item _ _ => some item
  | inThen .. | inElse .. => none

namespace Place

/-- The item of the innermost loop around the place. -/
def loopItem? : Place → Option String
  | top _ _ => none
  | inside _ frame inner _ => inner.loopItem?.or frame.loopItem?

/-- No statement enters a stagger: the way to a place leads past declarations and into branches and
loops. -/
theorem not_isStagger_of_mem_steps {step : Scope.Step} : ∀ {place : Place}, step ∈ place.steps →
    ¬ step.IsStagger
  | top before behind, h => by
    obtain ⟨d, rfl⟩ := Stmt.declare_of_mem_stepsIn h
    exact id
  | inside before frame inner behind, h => by
    rcases List.mem_append.mp h with h | h
    · obtain ⟨d, rfl⟩ := Stmt.declare_of_mem_stepsIn h
      exact id
    · rcases List.mem_cons.mp h with rfl | h
      · cases frame <;> exact id
      · exact not_isStagger_of_mem_steps h

theorem loopItem?_follow_stepsIn (scope : Scope) (body : List Stmt) :
    (scope.follow (Stmt.stepsIn body)).loopItem? = scope.loopItem? := by
  have hloops : (scope.follow (Stmt.stepsIn body)).loops = scope.loops := by
    apply Scope.loops_follow
    intro step hstep
    obtain ⟨d, rfl⟩ := Stmt.declare_of_mem_stepsIn hstep
    exact id
  rw [Scope.loopItem?, Scope.loopItem?, hloops]

/-- The scope at a place knows the innermost loop around it. By induction on the place, from the
outside to the inside: each loop on the way takes the place of the one before. -/
theorem loopItem?_follow : ∀ (place : Place) (scope : Scope),
    (scope.follow place.steps).loopItem? = place.loopItem?.or scope.loopItem?
  | top before behind, scope => loopItem?_follow_stepsIn scope before
  | inside before frame inner behind, scope => by
    rw [steps, Scope.follow_append, Scope.follow_cons, loopItem?_follow inner, loopItem?,
      Option.or_assoc]
    -- What is left is about the frame alone: a loop answers itself, a branch asks the scope around
    -- it.
    congr 1
    cases frame with
    | inLoop item collection l => rfl
    | inThen _ _ _ | inElse _ _ _ => exact loopItem?_follow_stepsIn scope before

/-- A statement is lowered in the scope at its place, if the body around it is lowered. -/
theorem lower_of_lowerBlock_fill {here : Surroundings} {scope : Scope} {place : Place} {s : Stmt}
    {operations : List DraftOperation}
    (h : Stmt.lowerBlock here scope (place.fill s) = .ok operations) :
    ∃ own, s.lower here (scope.follow place.steps) = .ok own ∧ own ⊆ operations := by
  rw [lowerBlock_fill] at h
  obtain ⟨before, -, h⟩ := Except.bind_ok h
  obtain ⟨own, hown, h⟩ := Except.bind_ok h
  obtain ⟨behind, -, h⟩ := Except.bind_ok h
  cases h
  refine ⟨own, hown, ?_⟩
  intro o ho
  exact List.mem_append_left _ (List.mem_append_right _ ho)

end Place

/-! ## Three names for one item -/

/-- The item of a loop hides a parameter of the same name. -/
theorem Scope.lower_parameter_of_loopItem? {scope : Scope} {x : String}
    (h : scope.loopItem? = some x) (l : Location) :
    Expr.lower scope (.parameter x l) = .ok (.string DataPath.loopItem) := by
  rw [Expr.lower]
  show scope.lowerParameter x l = _
  simp only [lowerParameter, identifier?, h, if_true]

namespace Program

/-- At every place of a program, the item of the innermost loop is lowered to the same path,
whichever way it is written, but the name of an element is kept for the element. -/
theorem lower_loop_item {p : Program} {documents : Documents} {b : Body}
    (hb : b ∈ p.bodies documents) {place : Place} {s : Stmt} (hbody : b.statements = place.fill s)
    {x : String} (hx : place.loopItem? = some x) (l : Location) :
    Expr.lower (b.scope.follow place.steps) (.parameter x l) = .ok (.string DataPath.loopItem) ∧
    Expr.lower (b.scope.follow place.steps) (.variable x l) = .ok (.string DataPath.loopItem) ∧
    Expr.lower (b.scope.follow place.steps) (.system x l) =
      .ok (if x = "item" ∨ x = "currentItem" then b.element.getD (.string DataPath.loopItem)
        else .string DataPath.loopItem) ∧
    ∀ assets settings draft, p.draft documents assets settings = .ok draft →
      ∃ own, s.lower b.here (b.scope.follow place.steps) = .ok own ∧
        own ⊆ draft.config.operations := by
  have hitem : (b.scope.follow place.steps).loopItem? = some x := by
    rw [Place.loopItem?_follow, hx, Option.some_or]
  -- Within a body no step enters a stagger, so the element is still the one of the body.
  have helement : (b.scope.follow place.steps).staggerItem = b.element := by
    rw [Scope.staggerItem_follow fun step => Place.not_isStagger_of_mem_steps]
    exact staggerItem_of_mem_bodies hb
  refine ⟨Scope.lower_parameter_of_loopItem? hitem l, ?_, ?_, ?_⟩
  · rw [Scope.lower_variable, if_pos hitem]
  · rw [Expr.lower]
    show Except.ok ((b.scope.follow place.steps).lowerSystem x) = _
    rw [Scope.lowerSystem_eq, Scope.staggerElement?, helement, if_pos hitem]
    split <;> rfl
  · intro assets settings draft hdraft
    obtain ⟨operations, hlower, hsub⟩ := (Program.draft_ok hdraft).bodies_lowered hb
    rw [hbody] at hlower
    obtain ⟨own, hown, hown_sub⟩ := Place.lower_of_lowerBlock_fill hlower
    exact ⟨own, hown, List.Subset.trans hown_sub hsub⟩

end Program

/-! ## Cards that come up one after another -/

namespace Cards

/-- A call that logs the item under one of its names. -/
def log : Stmt := .call ⟨"log", [.system "item" (.onLine 4)], .onLine 4⟩

/-- The body of a loop that calls its item like the element of a stagger. -/
def place : Place := .inside [] (.inLoop "item" (.array [] (.onLine 3)) (.onLine 3)) (.top [] []) []

/-- Two cards, each of which logs its items. -/
def program : Program where
  location := .onLine 1
  elements := [.timeline ⟨"main", "#stage", .raf, none, [
    .stagger (.literal 1 .s (.onLine 2))
      (.array [.string "#a" (.onLine 2), .string "#b" (.onLine 2)] (.onLine 2))
      (.inline (place.fill log) []) (.literal 1 .s (.onLine 2)) (.onLine 2)], .onLine 1⟩]

/-- The body that is run for the first card. -/
def body : Body :=
  ⟨⟨.ofProgram .empty program, .program⟩,
    (Scope.top program.globals).withStaggerItem (.string "#a"), some (.string "#a"), place.fill log⟩

theorem body_mem : body ∈ program.bodies .empty := by
  apply List.mem_append_right
  exact List.mem_flatMap.mpr ⟨_, List.mem_singleton.mpr rfl, List.mem_cons_self⟩

end Cards

namespace Program

/-- Inside the stagger `item` and `@item` are the item of the loop, and `@@item` is the card. -/
theorem lower_loop_item_cards :
    Expr.lower (Cards.body.scope.follow Cards.place.steps) (.variable "item" (.onLine 4)) =
      .ok (.string "$scope.currentItem") ∧
    Expr.lower (Cards.body.scope.follow Cards.place.steps) (.system "item" (.onLine 4)) =
      .ok (.string "#a") ∧
    ∃ draft own, Cards.program.draft .empty .empty .deterministic = .ok draft ∧
      Cards.log.lower Cards.body.here (Cards.body.scope.follow Cards.place.steps) = .ok own ∧
      own ⊆ draft.config.operations := by
  obtain ⟨-, hvariable, hsystem, hdraft⟩ :=
    lower_loop_item Cards.body_mem (s := Cards.log) rfl (x := "item") rfl (.onLine 4)
  obtain ⟨draft, h⟩ := Except.exists_ok (m := Cards.program.draft .empty .empty
    .deterministic) (by decide +kernel)
  obtain ⟨own, hown, hsub⟩ := hdraft .empty .deterministic draft h
  exact ⟨hvariable, hsystem, draft, own, h, hown, hsub⟩

/-- The three names of an item do not mean the same everywhere. In a stagger of cards with a loop
over `item` inside, `@@item` is the card. -/
theorem loop_item_names_differ : ¬ ∀ (p : Program) (documents : Documents),
    ∀ b ∈ p.bodies documents,
    ∀ (place : Place) (s : Stmt), b.statements = place.fill s →
      ∀ x, place.loopItem? = some x → ∀ l,
        Expr.lower (b.scope.follow place.steps) (.parameter x l) =
            .ok (.string DataPath.loopItem) ∧
          Expr.lower (b.scope.follow place.steps) (.variable x l) =
            .ok (.string DataPath.loopItem) ∧
          Expr.lower (b.scope.follow place.steps) (.system x l) =
            .ok (.string DataPath.loopItem) := by
  intro h
  obtain ⟨-, -, hsystem⟩ := h Cards.program .empty Cards.body Cards.body_mem Cards.place
    Cards.log rfl "item" rfl (.onLine 4)
  have hcard : Expr.lower (Cards.body.scope.follow Cards.place.steps)
      (.system "item" (.onLine 4)) = .ok (.string "#a") := rfl
  rw [hcard] at hsystem
  have htext : "#a" = DataPath.loopItem := Json.string.inj (Except.ok.inj hsystem)
  exact absurd htext (by decide)

end Program

end Cuesheet
