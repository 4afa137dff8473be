import Cuesheet.Proofs.Sites.Block
import Cuesheet.Proofs.Windows
import Mathlib.Data.List.Chain

/-!
# Cues

Lowering a timeline does two things at once: it works out when each action runs, and it lowers the
action. This file takes them apart. A `Cue` is an action with all that its place gives it: the
scope, the window and the location. `TimelineEvent.Plays` says which cues an event has when the
cursor stands at a given time, and where it leaves the cursor. `Cue.PlayedAs` says what becomes of
one cue. A timeline is lowered exactly if its cues are, one by one (`Timeline.lower_eq_ok_iff`).

Most of what is said about timelines elsewhere does not depend on the times. For that there are the
**turns** of a timeline, which are its cues without them: the sites, the loops and the bodies of a
timeline are those of its turns, and `Timeline.lower_turns` says that each turn is lowered to one
action. No later proof goes through the events of a timeline again.
-/

set_option autoImplicit false

namespace Cuesheet

theorem TimelineAction.lower_window {here : Surroundings} {scope : Scope} {timeline : String}
    {index : Nat} {window : Engine.Window} {l : Location} {action : TimelineAction}
    {a : DraftTimelineAction} (h : action.lower here scope timeline index window l = .ok a) :
    a.window = window := by
  cases action with
  | inline start finish =>
    obtain ⟨first, -, h⟩ := Except.bind_ok h
    obtain ⟨second, -, h⟩ := Except.bind_ok h
    cases h
    rfl
  | named c =>
    obtain ⟨halves, -, h⟩ := Except.bind_ok h
    cases h
    rfl

/-! ## Cues -/

/-- An action with all that its place on a timeline gives it. -/
structure Cue where
  action : TimelineAction
  scope : Scope
  window : Engine.Window
  location : Location

namespace Cue

/-- What runs at the cue, as the action of the timeline that has `index` others before it. -/
def lower (here : Surroundings) (timeline : String) (index : Nat) (cue : Cue) :
    Lowered DraftTimelineAction :=
  cue.action.lower here cue.scope timeline index cue.window cue.location

/-- The cue has a valid window, and the action is what runs in it. -/
structure PlayedAs (here : Surroundings) (timeline : String) (index : Nat) (cue : Cue)
    (a : DraftTimelineAction) : Prop where
  valid : cue.window.Valid
  lowered : cue.lower here timeline index = .ok a
  window : a.window = cue.window

variable {here : Surroundings} {timeline : String}

/-- The cues are played as the actions, one by one, behind `index` other actions. -/
def AllPlayedAs (here : Surroundings) (timeline : String) (index : Nat) (cues : List Cue)
    (actions : List DraftTimelineAction) : Prop :=
  List.Forall₂ (fun entry a => PlayedAs here timeline entry.2 entry.1 a) (cues.zipIdx index) actions

/-- An action never changes its window, so that part of `PlayedAs` is no condition. -/
theorem playedAs_iff {index : Nat} {cue : Cue} {a : DraftTimelineAction} :
    cue.PlayedAs here timeline index a ↔
      cue.window.Valid ∧ cue.lower here timeline index = .ok a :=
  ⟨fun h => ⟨h.valid, h.lowered⟩, fun h => ⟨h.1, h.2, TimelineAction.lower_window h.2⟩⟩

theorem allPlayedAs_nil {index : Nat} {actions : List DraftTimelineAction} :
    AllPlayedAs here timeline index [] actions ↔ actions = [] :=
  List.forall₂_nil_left_iff

theorem allPlayedAs_cons {index : Nat} {cue : Cue} {cues : List Cue}
    {actions : List DraftTimelineAction} :
    AllPlayedAs here timeline index (cue :: cues) actions ↔
      ∃ a others, cue.PlayedAs here timeline index a ∧
        AllPlayedAs here timeline (index + 1) cues others ∧ actions = a :: others :=
  List.forall₂_cons_left_iff

theorem allPlayedAs_singleton {index : Nat} {cue : Cue} {actions : List DraftTimelineAction} :
    AllPlayedAs here timeline index [cue] actions ↔
      ∃ a, cue.PlayedAs here timeline index a ∧ actions = [a] := by
  simp only [allPlayedAs_cons, allPlayedAs_nil, exists_and_left, exists_eq_left]

/-- The actions of the cues behind are numbered on from those in front. -/
theorem allPlayedAs_append {index : Nat} {first second : List Cue}
    {actions : List DraftTimelineAction} :
    AllPlayedAs here timeline index (first ++ second) actions ↔
      ∃ before behind, AllPlayedAs here timeline index first before ∧
        AllPlayedAs here timeline (index + before.length) second behind ∧
        actions = before ++ behind := by
  induction first generalizing index actions with
  | nil => simp [allPlayedAs_nil]
  | cons cue first ih =>
    rw [List.cons_append, allPlayedAs_cons]
    simp only [ih, allPlayedAs_cons]
    constructor
    · rintro ⟨a, _, ha, ⟨before, behind, hbefore, hbehind, rfl⟩, rfl⟩
      refine ⟨a :: before, behind, ⟨a, before, ha, hbefore, rfl⟩, ?_, rfl⟩
      rw [List.length_cons, Nat.add_comm before.length, ← Nat.add_assoc]
      exact hbehind
    · rintro ⟨_, behind, ⟨a, before, ha, hbefore, rfl⟩, hbehind, rfl⟩
      rw [List.length_cons, Nat.add_comm before.length, ← Nat.add_assoc] at hbehind
      exact ⟨a, before ++ behind, ha, ⟨before, behind, hbefore, hbehind, rfl⟩, rfl⟩

/-- Only valid windows are played. This holds of the cues as well as of the actions, as these have
the windows of their cues. -/
theorem AllPlayedAs.valid_of_mem {index : Nat} {cues : List Cue}
    {actions : List DraftTimelineAction} (h : AllPlayedAs here timeline index cues actions) :
    (∀ cue ∈ cues, cue.window.Valid) ∧ ∀ a ∈ actions, a.window.Valid := by
  induction cues generalizing index actions with
  | nil =>
    rw [allPlayedAs_nil.mp h]
    simp
  | cons cue cues ih =>
    obtain ⟨a, others, ha, hothers, rfl⟩ := allPlayedAs_cons.mp h
    obtain ⟨hcues, hactions⟩ := ih hothers
    rw [List.forall_mem_cons, List.forall_mem_cons, ha.window]
    exact ⟨⟨ha.valid, hcues⟩, ha.valid, hactions⟩

/-- Comparing the ends of cues that are played gives the latest of them: their windows are valid, so
all the ends are finite. -/
theorem AllPlayedAs.isLatest_finish {index : Nat} {cues : List Cue}
    {actions : List DraftTimelineAction} (h : AllPlayedAs here timeline index cues actions)
    {cursor : Float} (hcursor : cursor.isFinite = true) :
    IsLatest (cursor :: cues.map (·.window.finish))
      ((cues.map (·.window.finish)).foldl laterTime cursor) := by
  refine isLatest_foldl hcursor ?_
  intro time htime
  obtain ⟨cue, hcue, rfl⟩ := List.mem_map.mp htime
  exact (h.valid_of_mem.1 cue hcue).ordered.2.1

/-- The action of a cue in front of others that are still to be lowered. Events of all three kinds
do this with each of their cues; only the error for a window that is not valid differs. -/
def lowerBefore (here : Surroundings) (timeline : String) (index : Nat) (cue : Cue)
    (refused : LowerError) (rest : Lowered (List DraftTimelineAction × Float)) :
    Lowered (List DraftTimelineAction × Float) :=
  match Engine.Window.ofTimes? cue.window.start cue.window.finish with
  | none => .error refused
  | some window => do
    let first ← cue.action.lower here cue.scope timeline index window cue.location
    let (others, last) ← rest
    return (first :: others, last)

/-- The one step of all walks over a timeline: the window must be valid, the action must be lowered,
and then the rest must be. -/
theorem lowerBefore_eq_ok_iff {index : Nat} {cue : Cue} {refused : LowerError}
    {rest : Lowered (List DraftTimelineAction × Float)} {actions : List DraftTimelineAction}
    {last : Float} :
    lowerBefore here timeline index cue refused rest = .ok (actions, last) ↔
      ∃ a others, cue.PlayedAs here timeline index a ∧ rest = .ok (others, last) ∧
        actions = a :: others := by
  unfold lowerBefore
  -- The window is made of the times of the cue, so it is that of the cue if it is made at all.
  cases hwindow : Engine.Window.ofTimes? cue.window.start cue.window.finish with
  | none =>
    refine iff_of_false nofun ?_
    rintro ⟨a, others, ha, -⟩
    rw [ha.valid] at hwindow
    cases hwindow
  | some window =>
    obtain ⟨rfl, hvalid⟩ := Engine.Window.ofTimes?_eq_some_iff.mp hwindow
    simp only [Except.bind_eq_ok_iff, playedAs_iff]
    constructor
    · rintro ⟨a, ha, ⟨others, _⟩, hothers, ⟨⟩⟩
      exact ⟨a, others, ⟨hvalid, ha⟩, hothers, rfl⟩
    · rintro ⟨a, others, ⟨-, ha⟩, hothers, rfl⟩
      exact ⟨a, ha, (others, last), hothers, rfl⟩

/-- Where the last of the cues ends, or the cursor if there are none. -/
def endOf (cursor : Float) (cues : List Cue) : Float :=
  (cues.getLast?.map (·.window.finish)).getD cursor

theorem endOf_cons (cursor : Float) (cue : Cue) (cues : List Cue) :
    endOf cursor (cue :: cues) = endOf cue.window.finish cues := by
  unfold endOf
  rw [List.getLast?_cons]
  cases cues.getLast? <;> rfl

end Cue

/-! ## Sequences -/

namespace SequenceItem

/-- The cues of a sequence: one for each item, for its duration. The first starts at the cursor, and
each of the others at the end of the one before it. -/
structure LaidOut (scope : Scope) (cursor : Float) (items : List SequenceItem) (cues : List Cue) :
    Prop where
  each : List.Forall₂ (fun item cue => ∃ length, item.duration.duration = .ok length ∧
    cue.action = .named item.call ∧ cue.scope = scope ∧ cue.location = item.location ∧
    cue.window.finish = cue.window.start + length) items cues
  first : ∀ cue ∈ cues.head?, cue.window.start = cursor
  next : cues.IsChain fun cue following => following.window.start = cue.window.finish

theorem laidOut_nil {scope : Scope} {cursor : Float} {cues : List Cue} :
    LaidOut scope cursor [] cues ↔ cues = [] := by
  constructor
  · intro h
    exact List.forall₂_nil_left_iff.mp h.each
  · rintro rfl
    exact ⟨.nil, by simp, .nil⟩

/-- The cues of a sequence are known from the first one on: its end is where the others start. -/
theorem laidOut_cons {scope : Scope} {cursor : Float} {item : SequenceItem}
    {items : List SequenceItem} {cues : List Cue} :
    LaidOut scope cursor (item :: items) cues ↔
      ∃ length others, item.duration.duration = .ok length ∧
        LaidOut scope (cursor + length) items others ∧
        cues = ⟨.named item.call, scope, ⟨cursor, cursor + length⟩, item.location⟩ :: others := by
  constructor
  · rintro ⟨heach, hfirst, hnext⟩
    obtain ⟨⟨action, place, ⟨start, finish⟩, location⟩, others, ⟨length, hlength, hcue⟩, hothers,
      rfl⟩ := List.forall₂_cons_left_iff.mp heach
    obtain ⟨rfl, rfl, rfl, hfinish⟩ := hcue
    obtain rfl : start = cursor := hfirst _ rfl
    obtain rfl : finish = start + length := hfinish
    obtain ⟨hhead, hnext⟩ := List.isChain_cons.mp hnext
    exact ⟨length, others, hlength, ⟨hothers, hhead, hnext⟩, rfl⟩
  · rintro ⟨length, others, hlength, ⟨heach, hfirst, hnext⟩, rfl⟩
    refine ⟨.cons ⟨length, hlength, rfl, rfl, rfl, rfl⟩ heach, ?_,
      List.isChain_cons.mpr ⟨hfirst, hnext⟩⟩
    rintro cue ⟨⟩
    rfl

variable {here : Surroundings} {scope : Scope} {timeline : String}

/-- One item of a sequence, as a step of the walk. Stated as an equation because the float
arithmetic in the definition must not be opened. -/
theorem lowerList_cons (index : Nat) (cursor : Float) (item : SequenceItem)
    (items : List SequenceItem) :
    lowerList here scope timeline index cursor (item :: items) =
      item.duration.duration >>= fun length =>
        Cue.lowerBefore here timeline index
          ⟨.named item.call, scope, ⟨cursor, cursor + length⟩, item.location⟩
          ⟨.sequenceWindow, item.location⟩
          (lowerList here scope timeline (index + 1) (cursor + length) items) := rfl

theorem lowerList_eq_ok_iff {items : List SequenceItem} {index : Nat} {cursor last : Float}
    {actions : List DraftTimelineAction} :
    lowerList here scope timeline index cursor items = .ok (actions, last) ↔
      ∃ cues, LaidOut scope cursor items cues ∧ Cue.AllPlayedAs here timeline index cues actions ∧
        last = Cue.endOf cursor cues := by
  induction items generalizing index cursor actions with
  | nil =>
    simp only [laidOut_nil, exists_eq_left, Cue.allPlayedAs_nil]
    constructor
    · rintro ⟨⟩
      exact ⟨rfl, rfl⟩
    · rintro ⟨rfl, rfl⟩
      rfl
  | cons item items ih =>
    -- Both sides say now what becomes of the first item and of the rest, and only the order
    -- differs.
    simp only [lowerList_cons, Except.bind_eq_ok_iff, Cue.lowerBefore_eq_ok_iff, ih]
    constructor
    · rintro ⟨length, hlength, a, others, ha, ⟨cues, hcues, hplayed, rfl⟩, rfl⟩
      refine ⟨_, laidOut_cons.mpr ⟨length, cues, hlength, hcues, rfl⟩,
        Cue.allPlayedAs_cons.mpr ⟨a, others, ha, hplayed, rfl⟩, ?_⟩
      rw [Cue.endOf_cons]
    · rintro ⟨cues, hcues, hplayed, rfl⟩
      obtain ⟨length, others, hlength, hothers, rfl⟩ := laidOut_cons.mp hcues
      obtain ⟨a, actions, ha, hactions, rfl⟩ := Cue.allPlayedAs_cons.mp hplayed
      refine ⟨length, hlength, a, actions, ha, ⟨others, hothers, hactions, ?_⟩, rfl⟩
      rw [Cue.endOf_cons]

end SequenceItem

/-! ## Staggers -/

namespace Stagger

/-- The cue of the `k`-th element: it starts `k` delays behind the first one, and the element is its
item. -/
def cue (stagger : Stagger) (scope : Scope) (item : Json) (k : Nat) : Cue :=
  let start := stagger.base + Float.ofNat k * stagger.delay
  ⟨stagger.action, scope.withStaggerItem item, ⟨start, start + stagger.duration⟩, stagger.location⟩

/-- The cues of elements, of which the first is the `k`-th. -/
def cues (stagger : Stagger) (scope : Scope) (k : Nat) (values : List Json) : List Cue :=
  (values.zipIdx k).map fun entry => stagger.cue scope entry.1 entry.2

variable {here : Surroundings} {scope : Scope} {timeline : String} {stagger : Stagger}

theorem cues_cons (k : Nat) (value : Json) (values : List Json) :
    stagger.cues scope k (value :: values) =
      stagger.cue scope value k :: stagger.cues scope (k + 1) values := rfl

/-- One element of a stagger, as a step of the walk. -/
theorem lowerItems_cons (index k : Nat) (latest : Float) (value : Json) (values : List Json) :
    stagger.lowerItems here scope timeline index k latest (value :: values) =
      Cue.lowerBefore here timeline index (stagger.cue scope value k)
        ⟨.staggerWindow, stagger.location⟩
        (stagger.lowerItems here scope timeline (index + 1) (k + 1)
          (laterTime latest (stagger.cue scope value k).window.finish) values) := rfl

/-- The cues of a stagger are known at once, because each element starts a multiple of the delay
behind the first. Only the latest end is carried along. -/
theorem lowerItems_eq_ok_iff {values : List Json} {index k : Nat} {latest last : Float}
    {actions : List DraftTimelineAction} :
    stagger.lowerItems here scope timeline index k latest values = .ok (actions, last) ↔
      Cue.AllPlayedAs here timeline index (stagger.cues scope k values) actions ∧
      last = ((stagger.cues scope k values).map (·.window.finish)).foldl laterTime latest := by
  induction values generalizing index k latest actions with
  | nil =>
    refine Iff.trans ?_ (and_congr_left' Cue.allPlayedAs_nil.symm)
    constructor
    · rintro ⟨⟩
      exact ⟨rfl, rfl⟩
    · rintro ⟨rfl, rfl⟩
      rfl
  | cons value values ih =>
    simp only [lowerItems_cons, Cue.lowerBefore_eq_ok_iff, ih, cues_cons, List.map_cons,
      List.foldl_cons, Cue.allPlayedAs_cons]
    constructor
    · rintro ⟨a, others, ha, ⟨hothers, hlast⟩, rfl⟩
      exact ⟨⟨a, others, ha, hothers, rfl⟩, hlast⟩
    · rintro ⟨⟨a, others, ha, hothers, rfl⟩, hlast⟩
      exact ⟨a, others, ha, ⟨hothers, hlast⟩, rfl⟩

end Stagger

/-! ## Events -/

namespace TimelineEvent

/-- The cues of an event that comes up when the cursor stands at `cursor`, and where it leaves the
cursor. -/
inductive Plays (scope : Scope) (cursor : Float) : TimelineEvent → List Cue → Float → Prop
  | timed {start finish : TimeExpr} {action : TimelineAction} {location : Location}
      {first last : Float} (hstart : start.seconds cursor = .ok first)
      (hfinish : finish.seconds cursor = .ok last) :
      Plays scope cursor (.timed start finish action location)
        [⟨action, scope, ⟨first, last⟩, location⟩] last
  | sequence {items : List SequenceItem} {location : Location} {cues : List Cue}
      (hcues : SequenceItem.LaidOut scope cursor items cues) :
      Plays scope cursor (.sequence items location) cues (Cue.endOf cursor cues)
  | stagger {delay duration : TimeExpr} {items : Expr} {action : TimelineAction}
      {location : Location} {step length last : Float} {values : List Json} {cues : List Cue}
      (hdelay : delay.duration = .ok step) (hduration : duration.duration = .ok length)
      (hvalues : scope.fold? items = some (.array values))
      (hcues : cues = Stagger.cues ⟨action, step, length, cursor, location⟩ scope 0 values)
      (hlast : last = (cues.map (·.window.finish)).foldl laterTime cursor)
      (hlatest : IsLatest (cursor :: cues.map (·.window.finish)) last) :
      Plays scope cursor (.stagger delay items action duration location) cues last

/-- The cues of a list of events, one event after another, each from where the one before it has
left the cursor. -/
inductive PlayAll (scope : Scope) : Float → List TimelineEvent → List Cue → Prop
  | nil {cursor : Float} : PlayAll scope cursor [] []
  | cons {cursor next : Float} {event : TimelineEvent} {events : List TimelineEvent}
      {cues others : List Cue} (hevent : event.Plays scope cursor cues next)
      (hevents : PlayAll scope next events others) :
      PlayAll scope cursor (event :: events) (cues ++ others)

variable {here : Surroundings} {scope : Scope} {timeline : String}

theorem Plays.isFinite {cursor next : Float} {event : TimelineEvent} {cues : List Cue}
    (h : event.Plays scope cursor cues next) (hcursor : cursor.isFinite = true)
    (hvalid : ∀ cue ∈ cues, cue.window.Valid) : next.isFinite = true := by
  cases h with
  | timed hstart hfinish => exact (hvalid _ List.mem_cons_self).ordered.2.1
  | sequence hcues =>
    unfold Cue.endOf
    cases hlast : cues.getLast? with
    | none => exact hcursor
    | some cue => exact (hvalid cue (List.mem_of_getLast? hlast)).ordered.2.1
  | stagger hdelay hduration hvalues hcues hlast hlatest =>
    rcases List.mem_cons.mp hlatest.1 with rfl | hmem
    · exact hcursor
    · obtain ⟨cue, hcue, rfl⟩ := List.mem_map.mp hmem
      exact (hvalid cue hcue).ordered.2.1

/-- An event with times is a walk over a single cue. -/
theorem lower_timed (start finish : TimeExpr) (action : TimelineAction) (location : Location)
    (index : Nat) (cursor : Float) :
    lower here scope timeline index cursor (.timed start finish action location) =
      start.seconds cursor >>= fun first => finish.seconds cursor >>= fun last =>
        Cue.lowerBefore here timeline index ⟨action, scope, ⟨first, last⟩, location⟩
          ⟨.timeRange first last, location⟩ (.ok ([], last)) := rfl

/-- What one event does: it has cues, they are played, and it leaves the cursor where `Plays` says.
The cursor has to be finite for the latest end of a stagger to be the latest one. -/
theorem lower_eq_ok_iff {event : TimelineEvent} {index : Nat} {cursor next : Float}
    {actions : List DraftTimelineAction} (hcursor : cursor.isFinite = true) :
    event.lower here scope timeline index cursor = .ok (actions, next) ↔
      ∃ cues, event.Plays scope cursor cues next ∧
        Cue.AllPlayedAs here timeline index cues actions := by
  cases event with
  | timed start finish action location =>
    simp only [lower_timed, Except.bind_eq_ok_iff, Cue.lowerBefore_eq_ok_iff]
    constructor
    · rintro ⟨first, hstart, last, hfinish, a, _, ha, ⟨⟩, rfl⟩
      exact ⟨_, .timed hstart hfinish, Cue.allPlayedAs_singleton.mpr ⟨a, ha, rfl⟩⟩
    · rintro ⟨cues, hplays, hplayed⟩
      cases hplays with
      | timed hstart hfinish =>
        obtain ⟨a, ha, rfl⟩ := Cue.allPlayedAs_singleton.mp hplayed
        exact ⟨_, hstart, _, hfinish, a, [], ha, rfl, rfl⟩
  | sequence items location =>
    rw [lower, SequenceItem.lowerList_eq_ok_iff]
    constructor
    · rintro ⟨cues, hcues, hplayed, rfl⟩
      exact ⟨cues, .sequence hcues, hplayed⟩
    · rintro ⟨cues, ⟨⟩, hplayed⟩
      exact ⟨cues, ‹_›, hplayed, rfl⟩
  | stagger delay items action duration location =>
    simp only [lower, Except.bind_eq_ok_iff]
    constructor
    · rintro ⟨step, hdelay, length, hduration, h⟩
      split at h
      · rename_i values hvalues
        obtain ⟨hplayed, hlast⟩ := Stagger.lowerItems_eq_ok_iff.mp h
        have hlatest := hplayed.isLatest_finish hcursor
        rw [← hlast] at hlatest
        exact ⟨_, .stagger hdelay hduration hvalues rfl hlast hlatest, hplayed⟩
      · cases h
    · rintro ⟨cues, hplays, hplayed⟩
      cases hplays with
      | stagger hdelay hduration hvalues hcues hlast hlatest =>
        subst hcues
        refine ⟨_, hdelay, _, hduration, ?_⟩
        rw [hvalues]
        exact Stagger.lowerItems_eq_ok_iff.mpr ⟨hplayed, hlast⟩

theorem lowerList_eq_ok_iff {events : List TimelineEvent} {index : Nat} {cursor : Float}
    {actions : List DraftTimelineAction} (hcursor : cursor.isFinite = true) :
    lowerList here scope timeline index cursor events = .ok actions ↔
      ∃ cues, PlayAll scope cursor events cues ∧
        Cue.AllPlayedAs here timeline index cues actions := by
  induction events generalizing index cursor actions with
  | nil =>
    constructor
    · rintro ⟨⟩
      exact ⟨[], .nil, Cue.allPlayedAs_nil.mpr rfl⟩
    · rintro ⟨cues, ⟨⟩, hplayed⟩
      rw [Cue.allPlayedAs_nil.mp hplayed]
      rfl
  | cons event events ih =>
    rw [lowerList, Except.bind_eq_ok_iff]
    constructor
    · rintro ⟨⟨before, next⟩, hbefore, h⟩
      obtain ⟨behind, hbehind, ⟨⟩⟩ := Except.bind_ok h
      obtain ⟨cues, hplays, hcues⟩ := (lower_eq_ok_iff hcursor).mp hbefore
      -- The windows that have been played keep the cursor finite for the events behind.
      have hnext := hplays.isFinite hcursor hcues.valid_of_mem.1
      obtain ⟨others, hall, hothers⟩ := (ih hnext).mp hbehind
      exact ⟨cues ++ others, .cons hplays hall,
        Cue.allPlayedAs_append.mpr ⟨before, behind, hcues, hothers, rfl⟩⟩
    · rintro ⟨_, hall, hplayed⟩
      cases hall with
      | @cons _ next _ _ cues others hplays hall =>
        obtain ⟨before, behind, hcues, hothers, rfl⟩ := Cue.allPlayedAs_append.mp hplayed
        have hnext := hplays.isFinite hcursor hcues.valid_of_mem.1
        refine ⟨(before, next), (lower_eq_ok_iff hcursor).mpr ⟨cues, hplays, hcues⟩, ?_⟩
        exact Except.bind_eq_ok_iff.mpr ⟨behind, (ih hnext).mpr ⟨others, hall, hothers⟩, rfl⟩

end TimelineEvent

/-! ## Timelines -/

/-- A lowered timeline with the given actions. It lasts until the latest of them ends. -/
def Timeline.running (loops : Bool) (t : Timeline) (actions : List DraftTimelineAction) :
    Engine.Timeline Location where
  id := t.location
  uri := t.source
  type := t.provider.timelineType
  duration := actions.foldl (fun latest a => laterTime latest a.window.finish) 0.0
  loops
  selector := t.containerSelector
  actions

/-- **A timeline is lowered exactly if its cues are, one by one.** The cues come from the events in
order, from a cursor that starts at zero. -/
theorem Timeline.lower_eq_ok_iff {callables : Callables} {globals : Globals} {loops : Bool}
    {t : Timeline} {lowered : Engine.Timeline Location} :
    t.lower callables globals loops = .ok lowered ↔
      ∃ cues actions, TimelineEvent.PlayAll (.top globals) 0.0 t.events cues ∧
        Cue.AllPlayedAs ⟨callables, .program⟩ t.name 0 cues actions ∧
        lowered = t.running loops actions := by
  have hzero : (0.0 : Float).isFinite = true := by decide +kernel
  have hlower : t.lower callables globals loops =
      TimelineEvent.lowerList ⟨callables, .program⟩ (.top globals) t.name 0 0.0 t.events >>=
        fun actions => .ok (t.running loops actions) := rfl
  rw [hlower, Except.bind_eq_ok_iff]
  simp only [TimelineEvent.lowerList_eq_ok_iff hzero]
  constructor
  · rintro ⟨actions, ⟨cues, hcues, hplayed⟩, ⟨⟩⟩
    exact ⟨cues, actions, hcues, hplayed, rfl⟩
  · rintro ⟨cues, actions, hcues, hplayed, rfl⟩
    exact ⟨actions, ⟨cues, hcues, hplayed⟩, rfl⟩

/-! ## Turns -/

/-- A cue without its time: what is run, and for what. -/
structure Turn where
  action : TimelineAction
  /-- In a stagger, the element for which the action is run. -/
  element : Option Json
  /-- The node of the source that the turn comes from. -/
  own : Site

namespace Turn

/-- The scope in which the action is lowered, if the timeline has the scope `scope`. -/
def scope (turn : Turn) (scope : Scope) : Scope :=
  match turn.element with
  | none => scope
  | some value => scope.withStaggerItem value

/-- The cue is the turn at some time. -/
structure IsCuedAs (scope : Scope) (turn : Turn) (cue : Cue) : Prop where
  action : cue.action = turn.action
  scope : cue.scope = turn.scope scope
  location : cue.location = turn.own.location

end Turn

/-- The turns of an event: one for an event with times, one for each item of a sequence, and one for
each element of a stagger. -/
def TimelineEvent.turns (scope : Scope) : TimelineEvent → List Turn
  | .timed start finish action l => [⟨action, none, .event (.timed start finish action l)⟩]
  | .sequence items _ => items.map fun i => ⟨.named i.call, none, .item i⟩
  | .stagger delay items action duration l =>
    match scope.fold? items with
    | some (.array values) => values.map fun value =>
        ⟨action, some value, .event (.stagger delay items action duration l)⟩
    | _ => []

/-- The turns of a timeline, in order. -/
def Timeline.turns (globals : Globals) (t : Timeline) : List Turn :=
  t.events.flatMap (TimelineEvent.turns (.top globals))

namespace TimelineEvent

variable {scope : Scope} {cursor next : Float} {cues : List Cue}

/-- The cues of an event differ from its turns in nothing but the times. -/
theorem Plays.turns {event : TimelineEvent} (h : event.Plays scope cursor cues next) :
    List.Forall₂ (Turn.IsCuedAs scope) (event.turns scope) cues := by
  cases h with
  | timed hstart hfinish => exact .cons ⟨rfl, rfl, rfl⟩ .nil
  | sequence hcues =>
    rw [TimelineEvent.turns, List.forall₂_map_left_iff]
    refine hcues.each.imp ?_
    rintro item cue ⟨length, -, haction, hscope, hlocation, -⟩
    exact ⟨haction, hscope, hlocation⟩
  | stagger hdelay hduration hvalues hcues hlast hlatest =>
    subst hcues
    rw [TimelineEvent.turns, hvalues, List.forall₂_map_left_iff, Stagger.cues,
      List.forall₂_map_right_iff]
    -- The elements of the list and its numbered elements are the same ones.
    refine List.forall₂_iff_get.mpr ⟨by simp, ?_⟩
    intro i hi hi'
    exact ⟨rfl, by simp [Stagger.cue, Turn.scope], rfl⟩

theorem PlayAll.turns {events : List TimelineEvent} (h : PlayAll scope cursor events cues) :
    List.Forall₂ (Turn.IsCuedAs scope) (events.flatMap (TimelineEvent.turns scope)) cues := by
  induction h with
  | nil => exact .nil
  | cons hevent _ ih => exact List.rel_append hevent.turns ih

end TimelineEvent

/-- The action is what becomes of the turn, at some time and with some number. -/
def Turn.LoweredTo (here : Surroundings) (scope : Scope) (timeline : String) (turn : Turn)
    (a : DraftTimelineAction) : Prop :=
  ∃ index window,
    turn.action.lower here (turn.scope scope) timeline index window turn.own.location = .ok a

/-- What is known of the actions of cues is known of the actions of their turns. -/
theorem Cue.AllPlayedAs.turns {here : Surroundings} {scope : Scope} {timeline : String}
    {turns : List Turn} {cues : List Cue} (hturns : List.Forall₂ (Turn.IsCuedAs scope) turns cues)
    {index : Nat} {actions : List DraftTimelineAction}
    (h : AllPlayedAs here timeline index cues actions) :
    List.Forall₂ (Turn.LoweredTo here scope timeline) turns actions := by
  induction hturns generalizing index actions with
  | nil =>
    rw [allPlayedAs_nil.mp h]
    exact .nil
  | cons hcued _ ih =>
    obtain ⟨a, others, ha, hothers, rfl⟩ := allPlayedAs_cons.mp h
    have hlowered := ha.lowered
    rw [Cue.lower, hcued.action, hcued.scope, hcued.location] at hlowered
    exact .cons ⟨index, _, hlowered⟩ (ih hothers)

/-- **A lowered timeline has one action for each turn, in order.** -/
theorem Timeline.lower_turns {callables : Callables} {globals : Globals} {loops : Bool}
    {t : Timeline} {lowered : Engine.Timeline Location}
    (h : t.lower callables globals loops = .ok lowered) :
    List.Forall₂ (Turn.LoweredTo ⟨callables, .program⟩ (.top globals) t.name) (t.turns globals)
      lowered.actions := by
  obtain ⟨cues, actions, hcues, hplayed, rfl⟩ := lower_eq_ok_iff.mp h
  exact hplayed.turns hcues.turns

end Cuesheet
