import Cuesheet.Proofs.Sites.Program

/-!
# What lowering reads of the callables

Of all callables, a body that is lowered reads the action that each name means in its document, with
the name under which the configuration holds it. Two sets of callables that answer these questions
alike give the same operations, or a failure on both sides. The failures may differ, because an
error about an unknown name suggests names that are known.
-/

set_option autoImplicit false

namespace Cuesheet

/-! ## The same result, or a failure on both sides -/

namespace Lowered

variable {α β : Type}

/-- The same result, or a failure on both sides. -/
def Agree (m m' : Lowered α) : Prop := m.toOption = m'.toOption

theorem Agree.refl (m : Lowered α) : Agree m m := rfl

theorem Agree.error (e e' : LowerError) : Agree (.error e : Lowered α) (.error e') := rfl

theorem Agree.ok {m m' : Lowered α} (h : Agree m m') {a : α} (hm : m = .ok a) : m' = .ok a := by
  subst hm
  cases m' with
  | error e => cases h
  | ok b => exact congrArg Except.ok (Option.some.inj h).symm

/-- Results are the only thing that is compared, so it is enough that each side gives what the other
gives. -/
theorem Agree.of_ok {m m' : Lowered α} (h : ∀ a, m = .ok a → m' = .ok a)
    (h' : ∀ a, m' = .ok a → m = .ok a) : Agree m m' := by
  cases m with
  | ok a => rw [h a rfl]; rfl
  | error e =>
    cases m' with
    | ok a => cases h' a rfl
    | error e' => rfl

/-- Steps agree as a chain if each of them does. Behind a failure on both sides there is nothing
left to compare. -/
theorem Agree.bind {m m' : Lowered α} {k k' : α → Lowered β} (h : Agree m m')
    (hk : ∀ a, Agree (k a) (k' a)) : Agree (m >>= k) (m' >>= k') := by
  cases hm : m with
  | ok a =>
    rw [h.ok hm]
    exact hk a
  | error e =>
    cases hm' : m' with
    | ok a =>
      rw [hm, hm'] at h
      cases h
    | error e' => rfl

end Lowered

/-! ## Bodies -/

/-- Every name means the same action at both places. -/
def Surroundings.Agree (here there : Surroundings) : Prop :=
  ∀ name, here.action? name = there.action? name

section

variable {here there : Surroundings}

/-- A call asks for the action that its name means, and then, if there is none, for an operation of
the catalogue. The catalogue is the same everywhere. An unknown name is the one place where the
errors can differ. -/
theorem Call.lower_agree (h : here.Agree there) (scope : Scope) (c : Call) :
    Lowered.Agree (c.lower here scope) (c.lower there scope) := by
  unfold Call.lower
  rw [h c.name]
  cases there.action? c.name with
  | some found => exact .refl _
  | none =>
    cases Catalogue.lookup? c.name with
    | none => exact .error _ _
    | some op => exact .refl _

namespace Stmt

mutual

theorem lower_agree (h : here.Agree there) : ∀ (s : Stmt) (scope : Scope),
    Lowered.Agree (lower here scope s) (lower there scope s)
  | .call c, scope => by
    rw [lower, lower]
    exact Call.lower_agree h scope c
  | .declaration d, scope => by
    rw [lower, lower]
    exact .refl _
  | .branch condition thenBody elseBody l, scope => by
    rw [lower, lower]
    exact .bind (.refl _) fun _ => (lowerBlock_agree h thenBody _).bind fun _ =>
      (lowerElse_agree h elseBody scope l).bind fun _ => .refl _
  | .loop item collection body l, scope => by
    rw [lower, lower]
    exact .bind (.refl _) fun _ => (lowerBlock_agree h body _).bind fun _ => .refl _
  | .breakLoop l, scope => by
    rw [lower, lower]
    exact .refl _
  | .continueLoop l, scope => by
    rw [lower, lower]
    exact .refl _

/-- **A block is lowered alike wherever the names it calls mean the same.** All that lowering asks
of its surroundings is what a name means, so agreement on names is enough, and it passes through
branches and loops because they keep the surroundings. -/
theorem lowerBlock_agree (h : here.Agree there) : ∀ (body : List Stmt) (scope : Scope),
    Lowered.Agree (lowerBlock here scope body) (lowerBlock there scope body)
  | [], scope => by
    rw [lowerBlock, lowerBlock]
    exact .refl _
  | s :: rest, scope => by
    rw [lowerBlock, lowerBlock]
    exact (lower_agree h s scope).bind fun _ => (lowerBlock_agree h rest _).bind fun _ => .refl _

theorem lowerElse_agree (h : here.Agree there) : ∀ (elseBody : Option (List Stmt)) (scope : Scope)
    (l : Location),
        Lowered.Agree (lowerElse here scope l elseBody) (lowerElse there scope l elseBody)
  | none, scope, l => by
    rw [lowerElse, lowerElse]
    exact .refl _
  | some body, scope, l => by
    rw [lowerElse, lowerElse]
    exact (lowerBlock_agree h body _).bind fun _ => .refl _

end

end Stmt

/-! ## Timelines -/

/-- On a timeline only actions can be named, so here every unknown name is an error. -/
theorem Call.lowerHalves_agree (h : here.Agree there) (scope : Scope) (c : Call) :
    Lowered.Agree (c.lowerHalves here scope) (c.lowerHalves there scope) := by
  unfold Call.lowerHalves
  rw [h c.name]
  cases there.action? c.name with
  | some found => exact .refl _
  | none => exact .error _ _

/-- What an event runs is a pair of blocks or the two halves of a call. -/
theorem TimelineAction.lower_agree (h : here.Agree there) (scope : Scope) (timeline : String)
    (index : Nat) (window : Engine.Window) (l : Location) (action : TimelineAction) :
    Lowered.Agree (action.lower here scope timeline index window l)
      (action.lower there scope timeline index window l) := by
  cases action with
  | inline start finish =>
    exact (Stmt.lowerBlock_agree h start _).bind fun _ =>
      (Stmt.lowerBlock_agree h finish _).bind fun _ => .refl _
  | named c => exact (Call.lowerHalves_agree h scope c).bind fun _ => .refl _

/-- The window of a cue is part of the cue, so only the action has to agree. -/
theorem Cue.PlayedAs.agree (h : here.Agree there) {timeline : String} {index : Nat} {cue : Cue}
    {a : DraftTimelineAction} (ha : cue.PlayedAs here timeline index a) :
    cue.PlayedAs there timeline index a where
  valid := ha.valid
  lowered := (TimelineAction.lower_agree h _ _ _ _ _ _).ok ha.lowered
  window := ha.window

end

/-! ## Parts of a program -/

/-- In every document, every name means the same action for both. -/
def Callables.Agree (callables others : Callables) : Prop :=
  ∀ origin, (⟨callables, origin⟩ : Surroundings).Agree ⟨others, origin⟩

namespace Callables.Agree

variable {callables others : Callables} (h : callables.Agree others) (globals : Globals)
include h

/-- The bodies of an action are lowered in the document that defines it. -/
theorem lower_callable (name : String) (c : Callable) :
    Lowered.Agree (c.lower callables globals name) (c.lower others globals name) :=
  (Stmt.lowerBlock_agree (h c.origin) _ _).bind fun _ =>
    (Stmt.lowerBlock_agree (h c.origin) _ _).bind fun _ => .refl _

theorem lower_eventAction (a : EventAction) :
    Lowered.Agree (a.lower callables globals) (a.lower others globals) :=
  (Stmt.lowerBlock_agree (h .program) _ _).bind fun _ => .refl _

theorem symm : others.Agree callables := fun origin name => (h origin name).symm

/-- The cues of a timeline do not depend on the callables, and each is played alike. -/
theorem lower_timeline_ok {loops : Bool} {t : Timeline} {lowered : Engine.Timeline Location}
    (hlowered : t.lower callables globals loops = .ok lowered) :
    t.lower others globals loops = .ok lowered := by
  obtain ⟨cues, actions, hcues, hplayed, rfl⟩ := Timeline.lower_eq_ok_iff.mp hlowered
  refine Timeline.lower_eq_ok_iff.mpr ⟨cues, actions, hcues, ?_, rfl⟩
  exact List.Forall₂.imp (fun _ _ ha => ha.agree (h .program)) hplayed

/-- **A timeline is lowered alike wherever the names in it mean the same.** Its cues do not depend
on callables at all; only what each of them runs does. -/
theorem lower_timeline (loops : Bool) (t : Timeline) :
    Lowered.Agree (t.lower callables globals loops) (t.lower others globals loops) :=
  .of_ok (fun _ => h.lower_timeline_ok globals) fun _ => h.symm.lower_timeline_ok globals

end Callables.Agree

end Cuesheet
