import Cuesheet.Compile
import Cuesheet.Proofs.Cues
import Cuesheet.Proofs.Places

/-!
# The schedule of a timeline

A timeline is lowered to the actions of its cues, in order and with their windows. The cursor is all
that passes from one event to the next, and from one item of a sequence to the next. So a sequence
that is cut in two is lowered to what the whole one is lowered to, wherever it stands.
-/

set_option autoImplicit false

namespace Cuesheet

/-! ## A sequence in two parts -/

/-- What is lowered behind the cue can be put off. -/
theorem Cue.lowerBefore_bind {here : Surroundings} {timeline : String} {index : Nat} {cue : Cue}
    {refused : LowerError} (rest : Lowered (List DraftTimelineAction × Float))
    (more : Nat → Float → Lowered (List DraftTimelineAction × Float)) :
    lowerBefore here timeline index cue refused
        (rest >>= fun front => more (index + 1 + front.1.length) front.2 >>= fun back =>
          pure (front.1 ++ back.1, back.2)) =
      lowerBefore here timeline index cue refused rest >>= fun front =>
        more (index + front.1.length) front.2 >>= fun back =>
          pure (front.1 ++ back.1, back.2) := by
  unfold lowerBefore
  cases Engine.Window.ofTimes? cue.window.start cue.window.finish with
  | none => rfl
  | some window =>
    simp only [bind_assoc, pure_bind, List.length_cons, List.cons_append, Nat.add_assoc,
      Nat.add_comm 1]

theorem SequenceItem.lowerList_append {here : Surroundings} {scope : Scope} {timeline : String}
    (first second : List SequenceItem) (index : Nat) (cursor : Float) :
    lowerList here scope timeline index cursor (first ++ second) =
      lowerList here scope timeline index cursor first >>= fun front =>
        lowerList here scope timeline (index + front.1.length) front.2 second >>= fun back =>
          pure (front.1 ++ back.1, back.2) := by
  induction first generalizing index cursor with
  | nil => exact (bind_pure _).symm
  | cons item first ih =>
    simp only [List.cons_append, lowerList_cons, bind_assoc, ih]
    refine congrArg _ (funext fun length => ?_)
    exact Cue.lowerBefore_bind _ fun count time => lowerList here scope timeline count time second

namespace TimelineEvent

variable {here : Surroundings} {scope : Scope} {timeline : String}

/-- Behind any events, the parts of a sequence do what the whole does. -/
theorem lowerList_parts (before behind : List TimelineEvent) (first second : List SequenceItem)
    (l l₁ l₂ : Location) (index : Nat) (cursor : Float) :
    lowerList here scope timeline index cursor
        (before ++ .sequence first l₁ :: .sequence second l₂ :: behind) =
      lowerList here scope timeline index cursor
        (before ++ .sequence (first ++ second) l :: behind) := by
  induction before generalizing index cursor with
  | nil =>
    simp only [List.nil_append, lowerList, lower, SequenceItem.lowerList_append, bind_assoc,
      pure_bind, List.length_append, List.append_assoc, Nat.add_assoc]
  | cons event before ih =>
    simp only [List.cons_append, lowerList, ih]

end TimelineEvent

/-- In the place of a sequence, the second timeline has two, one behind the other, that share its
items. -/
def Timeline.CutsSequence (t cut : Timeline) : Prop :=
  ∃ before behind first second l l₁ l₂,
    t.events = before ++ .sequence (first ++ second) l :: behind ∧
    cut = { t with events := before ++ .sequence first l₁ :: .sequence second l₂ :: behind }

theorem Timeline.CutsSequence.lower_eq {t cut : Timeline} (h : t.CutsSequence cut)
    (callables : Callables) (globals : Globals) (loops : Bool) :
    cut.lower callables globals loops = t.lower callables globals loops := by
  obtain ⟨before, behind, first, second, l, l₁, l₂, hevents, rfl⟩ := h
  unfold Timeline.lower
  rw [hevents]
  simp only [TimelineEvent.lowerList_parts before behind first second l l₁ l₂]

/-! ## In a program -/

theorem Timeline.lowerList_congr {t other : Timeline} {callables : Callables} {globals : Globals}
    {loops : Bool} (h : other.lower callables globals loops = t.lower callables globals loops)
    (before behind : List Timeline) :
    lowerList callables globals loops (before ++ other :: behind) =
      lowerList callables globals loops (before ++ t :: behind) := by
  induction before with
  | nil => simp only [List.nil_append, lowerList, h]
  | cons first before ih => simp only [List.cons_append, lowerList, ih]

namespace Program

/-- All of a program but its timelines is the same, and its timelines are lowered to the same. -/
structure SameButTimelines (p q : Program) : Prop where
  location : p.location = q.location
  declarations : p.declarations = q.declarations
  actions : p.actions = q.actions
  eventActions : p.eventActions = q.eventActions
  libraryImports : p.libraryImports = q.libraryImports
  assetImports : p.assetImports = q.assetImports
  isEmpty : p.timelines.isEmpty = q.timelines.isEmpty
  timelines : ∀ callables globals loops, Timeline.lowerList callables globals loops p.timelines =
    Timeline.lowerList callables globals loops q.timelines

theorem SameButTimelines.lower_eq {p q : Program} (h : p.SameButTimelines q)
    (documents : Documents) (assets : Assets) (settings : Settings) (supply : Engine.IdSupply) :
    p.lower documents assets settings supply = q.lower documents assets settings supply := by
  have hcallables : Callables.ofProgram documents p = Callables.ofProgram documents q := by
    unfold Callables.ofProgram Imports.ofProgram
    rw [h.libraryImports, h.actions]
  have hstyles : assets.styleSheets p = assets.styleSheets q := by
    unfold Assets.styleSheets
    rw [h.assetImports]
  -- The draft takes nothing else from a program than what is the same in both.
  have hdraft : p.draft documents assets settings = q.draft documents assets settings := by
    unfold Program.draft Program.constants
    rw [hcallables, hstyles, h.location, h.declarations, h.eventActions, h.isEmpty]
    simp only [h.timelines]
  unfold Program.lower
  rw [hdraft]

theorem sameButTimelines_of_lower_eq {t other : Timeline}
    (h : ∀ callables globals loops,
      other.lower callables globals loops = t.lower callables globals loops)
    (front back : List Element) (l : Location) :
    SameButTimelines ⟨front ++ .timeline other :: back, l⟩ ⟨front ++ .timeline t :: back, l⟩ := by
  -- Whatever looks for elements of another kind does not see the timeline.
  have hskip : ∀ {α : Type} (f : Element → Option α), (∀ t, f (.timeline t) = none) →
      (front ++ .timeline other :: back).filterMap f =
        (front ++ .timeline t :: back).filterMap f := by
    intro α f hf
    simp [hf]
  have htimelines : ∀ t : Timeline, timelines ⟨front ++ .timeline t :: back, l⟩ =
      timelines ⟨front, l⟩ ++ t :: timelines ⟨back, l⟩ := by
    intro t
    simp [timelines]
  exact {
    location := rfl
    declarations := hskip _ fun _ => rfl
    actions := hskip _ fun _ => rfl
    eventActions := hskip _ fun _ => rfl
    libraryImports := hskip _ fun _ => rfl
    assetImports := hskip _ fun _ => rfl
    isEmpty := by
      rw [htimelines, htimelines]
      cases timelines ⟨front, l⟩ <;> rfl
    timelines := by
      intro callables globals loops
      rw [htimelines, htimelines]
      exact Timeline.lowerList_congr (h callables globals loops) _ _ }

end Program

/-- **A timeline is its cues, one after another.** It is lowered to the actions of its cues, each in
its window and at its place, and only if all of them are. The cues come from the events in order,
from a cursor that starts at zero. Every window is valid. Cutting a sequence in two changes nothing
at all, in the timeline or in any program that it stands in. -/
theorem Timeline.lower_scheduled (callables : Callables) (globals : Globals) (loops : Bool)
    (t : Timeline) :
    (∀ actions, (∃ lowered, t.lower callables globals loops = .ok lowered ∧
        lowered.actions = actions) ↔
      ∃ cues, TimelineEvent.PlayAll (.top globals) 0.0 t.events cues ∧
        Cue.AllPlayedAs ⟨callables, .program⟩ t.name 0 cues actions) ∧
    (∀ lowered, t.lower callables globals loops = .ok lowered →
      ∀ a ∈ lowered.actions, a.window.Valid) ∧
    ∀ cut, t.CutsSequence cut →
      cut.lower callables globals loops = t.lower callables globals loops ∧
      ∀ front back l documents assets settings supply,
        Program.lower ⟨front ++ .timeline cut :: back, l⟩ documents assets settings supply =
          Program.lower ⟨front ++ .timeline t :: back, l⟩ documents assets settings supply := by
  refine ⟨?_, ?_, ?_⟩
  · intro actions
    constructor
    · rintro ⟨lowered, h, rfl⟩
      obtain ⟨cues, actions, hcues, hplayed, rfl⟩ := lower_eq_ok_iff.mp h
      exact ⟨cues, hcues, hplayed⟩
    · rintro ⟨cues, hcues, hplayed⟩
      exact ⟨_, lower_eq_ok_iff.mpr ⟨cues, actions, hcues, hplayed, rfl⟩, rfl⟩
  · intro lowered h
    obtain ⟨cues, actions, -, hplayed, rfl⟩ := lower_eq_ok_iff.mp h
    exact hplayed.valid_of_mem.2
  · intro cut hcut
    refine ⟨hcut.lower_eq callables globals loops, ?_⟩
    intro front back l documents assets settings supply
    exact (Program.sameButTimelines_of_lower_eq hcut.lower_eq front back l).lower_eq documents
      assets settings supply

namespace Gallery

def seconds (amount : Float) : TimeExpr := .literal amount .s .unknown

/-- An inline action that selects an element. -/
def select (element : Expr) : TimelineAction :=
  .inline [.call ⟨"selectElement", [element], .onLine 3⟩] []

def item (length : Float) (n : UInt32) : SequenceItem :=
  ⟨⟨"turn", [], .onLine n⟩, seconds length, .onLine n⟩

/-- A title, two pages one after another, and a picture for each of two names. -/
def timeline (pages : List TimelineEvent) : Timeline where
  name := "show"
  containerSelector := "#stage"
  provider := .raf
  source := none
  events := [.timed (seconds 1) (.relative 3 .s .unknown) (select (.string "#title" (.onLine 3)))
      (.onLine 2)] ++ pages ++
    [.stagger (seconds 0.5)
      (.array [.string "#a" (.onLine 8), .string "#b" (.onLine 8)] (.onLine 8))
      (select (.system "item" (.onLine 9))) (seconds 2) (.onLine 7)]
  location := .onLine 1

/-- The callables of a program with the one action `turn`. -/
def callables : Callables :=
  .ofProgram .empty ⟨[.action ⟨"turn", [], .regular [], .onLine 11⟩], .onLine 1⟩

def whole : Timeline := timeline [.sequence [item 2 5, item 4 6] (.onLine 4)]

def cut : Timeline := timeline [.sequence [item 2 5] (.onLine 4), .sequence [item 4 6] (.onLine 6)]

end Gallery

theorem Timeline.lower_scheduled_gallery :
    ∃ lowered, Gallery.whole.lower Gallery.callables ⟨.empty, []⟩ false = .ok lowered ∧
      Gallery.cut.lower Gallery.callables ⟨.empty, []⟩ false = .ok lowered ∧
      lowered.actions.map (·.name) =
        ["show-event-1", "turn", "turn", "show-event-4", "show-event-5"] ∧
      ∃ cues, TimelineEvent.PlayAll (.top ⟨.empty, []⟩) 0.0 Gallery.whole.events cues ∧
        Cue.AllPlayedAs ⟨Gallery.callables, .program⟩ "show" 0 cues lowered.actions := by
  obtain ⟨lowered, h, hnames⟩ := Except.exists_ok_of_map
    (m := Gallery.whole.lower Gallery.callables ⟨.empty, []⟩ false)
    (f := fun t => t.actions.map (·.name))
    (b := ["show-event-1", "turn", "turn", "show-event-4", "show-event-5"]) (by decide +kernel)
  obtain ⟨hschedule, -, hcut⟩ :=
    Timeline.lower_scheduled Gallery.callables ⟨.empty, []⟩ false Gallery.whole
  have hparts : Gallery.whole.CutsSequence Gallery.cut :=
    ⟨[_], [_], [Gallery.item 2 5], [Gallery.item 4 6], .onLine 4, .onLine 4, .onLine 6, rfl, rfl⟩
  exact ⟨lowered, h, (hcut Gallery.cut hparts).1.trans h, hnames,
    (hschedule _).mp ⟨lowered, h, rfl⟩⟩

end Cuesheet
