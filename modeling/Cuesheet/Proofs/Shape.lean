import Cuesheet.Proofs.Numbering

/-!
# Configurations without their ids

What is left of a configuration when its ids are taken away is its shape. Numbering never changes
it, and it leaves nothing open but the ids: two configurations of one shape that list the same ids
in the order of issue are equal (`Config.determined`). So a statement about a whole configuration
comes down to one about a flat list of ids.
-/

set_option autoImplicit false

namespace Cuesheet.Engine

section

variable {ι κ μ : Type}

/-- The configuration with nothing in the place of its ids. -/
def Config.withoutIds (c : Config ι) : Config Unit := c.map fun _ => ()

/-! ## Changing identities twice -/

/-- One lemma per kind of record, so that `simp` carries a change of ids through a whole
configuration. -/
@[simp] theorem Operation.map_map (g : κ → μ) (f : ι → κ) (o : Operation ι) :
    (o.map f).map g = o.map (g ∘ f) := rfl

theorem Operation.map_comp_map (g : κ → μ) (f : ι → κ) :
    Operation.map g ∘ Operation.map f = Operation.map (g ∘ f) := rfl

@[simp] theorem Action.map_map (g : κ → μ) (f : ι → κ) (a : Action ι) :
    (a.map f).map g = a.map (g ∘ f) := by
  simp [Action.map, Operation.map_comp_map]

@[simp] theorem EventAction.map_map (g : κ → μ) (f : ι → κ) (a : EventAction ι) :
    (a.map f).map g = a.map (g ∘ f) := by
  simp [EventAction.map, Operation.map_comp_map]

@[simp] theorem TimelineAction.map_map (g : κ → μ) (f : ι → κ) (a : TimelineAction ι) :
    (a.map f).map g = a.map (g ∘ f) := by
  simp [TimelineAction.map, Operation.map_comp_map]

@[simp] theorem Timeline.map_map (g : κ → μ) (f : ι → κ) (t : Timeline ι) :
    (t.map f).map g = t.map (g ∘ f) := by
  simp [Timeline.map, Function.comp_def]

@[simp] theorem Config.map_map (g : κ → μ) (f : ι → κ) (c : Config ι) :
    (c.map f).map g = c.map (g ∘ f) := by
  simp [Config.map, ProviderSetting.map, Function.comp_def]

@[simp] theorem Config.withoutIds_map (f : ι → κ) (c : Config ι) :
    (c.map f).withoutIds = c.withoutIds :=
  c.map_map _ f

/-- **Numbering changes ids and nothing else.** Drafts are numbered as pairs of the new id and the
old place (`Config.number_pairs`), and both halves of the pairs have the same shape. -/
theorem Config.withoutIds_withIds (supply : IdSupply) (fixed : Option String)
    (c : Config Location) : (c.withIds supply fixed).1.withoutIds = c.withoutIds := by
  obtain ⟨p, hdraft, hresult⟩ := Config.number_pairs supply fixed c ⟨0, .empty⟩
  calc (c.withIds supply fixed).1.withoutIds
      = (p.map Prod.fst).withoutIds := by rw [hresult]; rfl
    _ = (p.map Prod.snd).withoutIds := by simp
    _ = c.withoutIds := by rw [hdraft]

/-! ## The ids in the order of issue -/

/-- Changing ids keeps the order in which they are issued. The same holds of each record that has
operations, and so of the configuration. -/
theorem Action.issues_map (f : ι → κ) (a : Action ι) :
    (a.map f).issues = a.issues.map fun e => (e.1, f e.2) := by
  simp [Action.issues, Action.map, Operation.issues, Operation.map, List.map_flatMap,
    List.flatMap_map]

theorem EventAction.issues_map (f : ι → κ) (a : EventAction ι) :
    (a.map f).issues = a.issues.map fun e => (e.1, f e.2) := by
  simp [EventAction.issues, EventAction.map, Operation.issues, Operation.map, List.map_flatMap,
    List.flatMap_map]

theorem TimelineAction.issues_map (f : ι → κ) (a : TimelineAction ι) :
    (a.map f).issues = a.issues.map fun e => (e.1, f e.2) := by
  simp [TimelineAction.issues, TimelineAction.map, Operation.issues, Operation.map,
    List.map_flatMap, List.flatMap_map]

theorem Timeline.issues_map (f : ι → κ) (t : Timeline ι) :
    (t.map f).issues = t.issues.map fun e => (e.1, f e.2) := by
  simp [Timeline.issues, Timeline.map, TimelineAction.issues_map, List.map_flatMap,
    List.flatMap_map]

theorem Config.issues_map (f : ι → κ) (c : Config ι) :
    (c.map f).issues = c.issues.map fun e => (e.1, f e.2) := by
  simp [Config.issues, Config.map, Action.issues_map, EventAction.issues_map, Timeline.issues_map,
    ProviderSetting.issues, ProviderSetting.map, List.map_flatMap, List.flatMap_map]

end

/-! ## Shape and ids are all there is -/

/-- Things of one shape list equally many ids, and if they list the same ones they are equal. The
first half is what lets the second pass to lists: it says where the ids of one thing end and those
of the next begin. -/
structure Determined {α σ β : Type} (shape : α → σ) (issues : α → List β) : Prop where
  length_eq : ∀ {a b : α}, shape a = shape b → (issues a).length = (issues b).length
  eq : ∀ {a b : α}, shape a = shape b → issues a = issues b → a = b

/-- A list of such things is determined by its shape and the ids of all its items in a row. -/
theorem Determined.list {α σ β : Type} {shape : α → σ} {issues : α → List β}
    (h : Determined shape issues) : Determined (List.map shape) (List.flatMap issues) where
  length_eq := by
    intro xs
    induction xs with
    | nil =>
      intro ys hshape
      cases ys with
      | nil => rfl
      | cons y ys => cases hshape
    | cons x xs ih =>
      intro ys hshape
      cases ys with
      | nil => cases hshape
      | cons y ys =>
        simp only [List.map_cons, List.cons.injEq] at hshape
        simp [h.length_eq hshape.1, ih hshape.2]
  eq := by
    intro xs
    induction xs with
    | nil =>
      intro ys hshape _
      cases ys with
      | nil => rfl
      | cons y ys => cases hshape
    | cons x xs ih =>
      intro ys hshape hissues
      cases ys with
      | nil => cases hshape
      | cons y ys =>
        simp only [List.map_cons, List.cons.injEq] at hshape
        -- The ids of the heads are equally many, so the two lists of ids part at the same place.
        obtain ⟨hhead, htail⟩ := List.append_inj hissues (h.length_eq hshape.1)
        rw [h.eq hshape.1 hhead, ih hshape.2 htail]

section

variable {ι : Type}

theorem Operation.determined :
    Determined (Operation.map fun _ : ι => ()) Operation.issues where
  length_eq _ := rfl
  eq {a b} hshape hissues := by
    cases a
    cases b
    simp_all [Operation.map, Operation.issues]

/-- The ids of an action are those of its two bodies and then its own. Bodies of one shape have
equally many, so the row of ids is cut at the same places in both. -/
theorem Action.determined : Determined (Action.map fun _ : ι => ()) Action.issues where
  length_eq {a b} hshape := by
    have := congrArg (List.length ∘ Action.issues) hshape
    simpa [Action.issues_map] using this
  eq {a b} hshape hissues := by
    cases a
    cases b
    simp only [Action.map, Action.mk.injEq, true_and] at hshape
    obtain ⟨hname, hstart, hfinish⟩ := hshape
    obtain ⟨hi, hissues⟩ := List.append_inj hissues (Operation.determined.list.length_eq hstart)
    obtain ⟨hi', hissues⟩ := List.append_inj hissues (Operation.determined.list.length_eq hfinish)
    simp_all [Operation.determined.list.eq hstart hi, Operation.determined.list.eq hfinish hi']

theorem EventAction.determined :
    Determined (EventAction.map fun _ : ι => ()) EventAction.issues where
  length_eq {a b} hshape := by
    have := congrArg (List.length ∘ EventAction.issues) hshape
    simpa [EventAction.issues_map] using this
  eq {a b} hshape hissues := by
    cases a
    cases b
    simp only [EventAction.map, EventAction.mk.injEq, true_and] at hshape
    obtain ⟨hname, hevent, htopic, hstart⟩ := hshape
    obtain ⟨hi, hissues⟩ := List.append_inj hissues (Operation.determined.list.length_eq hstart)
    simp_all [Operation.determined.list.eq hstart hi]

theorem TimelineAction.determined :
    Determined (TimelineAction.map fun _ : ι => ()) TimelineAction.issues where
  length_eq {a b} hshape := by
    have := congrArg (List.length ∘ TimelineAction.issues) hshape
    simpa [TimelineAction.issues_map] using this
  eq {a b} hshape hissues := by
    cases a
    cases b
    simp only [TimelineAction.map, TimelineAction.mk.injEq, true_and] at hshape
    obtain ⟨hname, hwindow, hstart, hfinish⟩ := hshape
    obtain ⟨hi, hissues⟩ := List.append_inj hissues (Operation.determined.list.length_eq hstart)
    obtain ⟨hi', hissues⟩ := List.append_inj hissues (Operation.determined.list.length_eq hfinish)
    simp_all [Operation.determined.list.eq hstart hi, Operation.determined.list.eq hfinish hi']

theorem Timeline.determined : Determined (Timeline.map fun _ : ι => ()) Timeline.issues where
  length_eq {a b} hshape := by
    have := congrArg (List.length ∘ Timeline.issues) hshape
    simpa [Timeline.issues_map] using this
  eq {a b} hshape hissues := by
    cases a
    cases b
    simp only [Timeline.map, Timeline.mk.injEq, true_and] at hshape
    obtain ⟨huri, htype, hduration, hloops, hselector, hactions⟩ := hshape
    simp only [Timeline.issues, List.cons.injEq] at hissues
    simp_all [TimelineAction.determined.list.eq hactions hissues.2]

theorem ProviderSetting.determined :
    Determined (fun entry : String × ProviderSetting ι => (entry.1, entry.2.map fun _ => ()))
      ProviderSetting.issues where
  length_eq _ := rfl
  eq {a b} hshape hissues := by
    obtain ⟨name, id, driver⟩ := a
    obtain ⟨name', id', driver'⟩ := b
    simp_all [ProviderSetting.map, ProviderSetting.issues]

/-- **Configurations of one shape that list the same ids are equal.** The row of ids has five parts,
which are taken off one after the other. -/
theorem Config.determined : Determined (@Config.withoutIds ι) Config.issues where
  length_eq {a b} hshape := by
    -- The number of ids can be read off the shape, since the shape lists a unit for each.
    have := congrArg (List.length ∘ Config.issues) hshape
    simpa [Config.withoutIds, Config.issues_map] using this
  eq {a b} hshape hissues := by
    cases a
    cases b
    simp only [Config.withoutIds, Config.map, Config.mk.injEq, true_and] at hshape
    obtain ⟨_, _, _, _, _, _, hinit, hactions, hevents, htimelines, hproviders⟩ := hshape
    obtain ⟨hi₁, hissues⟩ := List.append_inj hissues (Action.determined.list.length_eq hinit)
    obtain ⟨hi₂, hissues⟩ := List.append_inj hissues (Action.determined.list.length_eq hactions)
    obtain ⟨hi₃, hissues⟩ :=
      List.append_inj hissues (EventAction.determined.list.length_eq hevents)
    obtain ⟨hi₄, hissues⟩ :=
      List.append_inj hissues (Timeline.determined.list.length_eq htimelines)
    obtain ⟨hi₅, hissues⟩ :=
      List.append_inj hissues (ProviderSetting.determined.list.length_eq hproviders)
    simp_all [Action.determined.list.eq hinit hi₁, Action.determined.list.eq hactions hi₂,
      EventAction.determined.list.eq hevents hi₃, Timeline.determined.list.eq htimelines hi₄,
      ProviderSetting.determined.list.eq hproviders hi₅]

end

end Cuesheet.Engine
