import Cuesheet.Proofs.Reordering

/-!
# Ends that start with what the start has left

Whether ends are seeded matters to the check of the data flow and to nothing else: the draft of a
program and the ids it gets are the same either way. A list of operations that passes the check with
little available also passes with more, so seeding can only let more programs through, and what it
lets through is lowered to the same result.

The check is monotone step by step. `Dataflow.Outcome.passed` counts the operations that a run has
passed. With more available in front of a list, a run passes no fewer of its operations
(`Dataflow.passed_mono`) and leaves no less (`Dataflow.available_mono`), whether it ends or stops.
-/

set_option autoImplicit false

namespace Cuesheet

/-! ## Runs with more available -/

namespace Dataflow

variable {initial larger names : List String}

/-- How many operations of the list a run has passed: all of them, or those in front of the one that
lacks something. -/
def Outcome.passed (names : List String) (outcome : Outcome) : Nat :=
  match outcome.failure with
  | none => names.length
  | some (index, _) => index

theorem outputs_take_subset (names : List String) {i j : Nat} (h : i ≤ j) :
    outputs (names.take i) ⊆ outputs (names.take j) := by
  have hleads : names.take i <+: names.take j := List.take_prefix_take_left h
  obtain ⟨between, hbetween⟩ := hleads
  intro entry hentry
  rw [← hbetween, outputs, List.filterMap_append, List.flatMap_append]
  exact List.mem_append_left _ hentry

theorem StopsAt.lt_length {i : Nat} {complaint : Missing}
    (h : StopsAt initial names i complaint) : i < names.length := by
  obtain ⟨op, hname, -⟩ := h.first
  exact (List.getElem?_eq_some_iff.mp hname).1

theorem passed_le_length (names initial : List String) :
    (run names initial).passed names ≤ names.length := by
  unfold Outcome.passed
  cases hfailure : (run names initial).failure with
  | none => exact Nat.le_refl _
  | some stop => exact Nat.le_of_lt (stopsAt_of_run hfailure).1.lt_length

theorem failure_eq_none_iff_passed :
    (run names initial).failure = none ↔ (run names initial).passed names = names.length := by
  unfold Outcome.passed
  cases hfailure : (run names initial).failure with
  | none => simp
  | some stop =>
    have hlt := (stopsAt_of_run hfailure).1.lt_length
    simpa using Nat.ne_of_lt hlt

/-- Where a run has come to, what is available is what was there and what the operations that it has
passed write. -/
theorem mem_available_iff {entry : String} :
    entry ∈ (run names initial).available ↔
      entry ∈ initial ∨ entry ∈ outputs (names.take ((run names initial).passed names)) := by
  unfold Outcome.passed
  cases hfailure : (run names initial).failure with
  | none => simpa using (behind_of_run hfailure).available entry
  | some stop => exact (stopsAt_of_run hfailure).2.available entry

/-- With more available in front of it, no fewer operations of a list are passed. -/
theorem passed_mono (hsub : initial ⊆ larger) :
    (run names initial).passed names ≤ (run names larger).passed names := by
  cases hlarger : (run names larger).failure with
  | none =>
    rw [failure_eq_none_iff_passed.mp hlarger]
    exact passed_le_length names initial
  | some stop =>
    obtain ⟨i, complaint⟩ := stop
    -- What is lacking here is lacking with less available too, so the other run stops here or
    -- before.
    have hlacks : ¬ Supplied initial names i := by
      intro hsupplied
      exact (stopsAt_of_run hlarger).1.not_supplied (hsupplied.mono hsub)
    cases hinitial : (run names initial).failure with
    | none => exact absurd (run_failure_eq_none_iff.mp hinitial i) hlacks
    | some earlier =>
      have hleast := (stopsAt_of_run hinitial).1.least
      simp only [Outcome.passed, hinitial, hlarger]
      exact Nat.le_of_not_lt fun hlt => hlacks (hleast i hlt)

/-- With more available in front of a list, no less is available behind it. -/
theorem available_mono (hsub : initial ⊆ larger) :
    (run names initial).available ⊆ (run names larger).available := by
  intro entry hentry
  rw [mem_available_iff] at hentry ⊢
  exact hentry.imp (fun h => hsub h) fun h => outputs_take_subset names (passed_mono hsub) h

theorem failure_eq_none_mono (hsub : initial ⊆ larger) (h : (run names initial).failure = none) :
    (run names larger).failure = none := by
  rw [failure_eq_none_iff_passed] at h ⊢
  exact Nat.le_antisymm (passed_le_length names larger) (h ▸ passed_mono hsub)

end Dataflow

/-! ## Seeded and unseeded ends -/

namespace Engine

/-- The operations that end an action read only what they have written themselves. -/
def EndsAlone (finish : List (Operation String)) : Prop :=
  ∀ i, Dataflow.Supplied [] (finish.map (·.name)) i

theorem halvesSupplied_unseeded_iff {start finish : List (Operation String)} :
    HalvesSupplied false start finish ↔ HalvesSupplied true start finish ∧ EndsAlone finish := by
  constructor
  · intro h
    refine ⟨⟨h.1, fun i => (h.2 i).mono ?_⟩, h.2⟩
    intro entry hentry
    simp at hentry
  · intro h
    exact ⟨h.1.1, h.2⟩

/-- A check without seeding is one with seeding, and one of every end by itself. -/
theorem checkAll_unseeded_iff {map : SourceMap}
    {lists : List (String × List (Operation String) × List (Operation String))} :
    checkAll map false lists = .ok () ↔
      checkAll map true lists = .ok () ∧ ∀ half ∈ lists, EndsAlone half.2.2 := by
  simp only [checkAll_eq_ok_iff, halvesSupplied_unseeded_iff]
  exact forall₂_and

end Engine

namespace Program

variable {p : Program} {documents : Documents} {assets : Assets} {settings : Settings}

theorem draft_seedEnd (seedEnd : Bool) :
    p.draft documents assets { settings with seedEnd } = p.draft documents assets settings := rfl

theorem lower_eq_ok_iff {supply : Engine.IdSupply} {compiled : Compiled} :
    p.lower documents assets settings supply = .ok compiled ↔
      ∃ draft, p.draft documents assets settings = .ok draft ∧
        compiled = draft.compiled supply settings.configId ∧
        Engine.checkAll compiled.sourceMap settings.seedEnd compiled.config.halves = .ok () := by
  constructor
  · intro h
    obtain ⟨draft, hdraft, -⟩ := lower_ok h
    rw [lower_of_draft hdraft] at h
    obtain ⟨⟨⟩, hcheck, rfl⟩ := Except.map_ok h
    exact ⟨draft, hdraft, rfl, hcheck⟩
  · intro h
    obtain ⟨draft, hdraft, rfl, hcheck⟩ := h
    rw [lower_of_draft hdraft, hcheck]
    rfl

/-- **Seeding the ends of actions only lets more programs through.** A program is lowered without
seeding exactly if it is lowered with seeding, to the same result, and in that result no end reads
what only its start has written. Behind this is that a run through a list of operations is monotone:
with more available in front of the list it still passes if it passed before, it passes no fewer
operations in any case, and no less is available where it has come to. -/
theorem lower_unseeded_iff :
    (∀ (p : Program) (documents : Documents) (assets : Assets) (settings : Settings)
      (supply : Engine.IdSupply) (compiled : Compiled),
      p.lower documents assets { settings with seedEnd := false } supply = .ok compiled ↔
        p.lower documents assets { settings with seedEnd := true } supply = .ok compiled ∧
          ∀ half ∈ compiled.config.halves, Engine.EndsAlone half.2.2) ∧
    ∀ names initial larger : List String, initial ⊆ larger →
      ((Dataflow.run names initial).failure = none →
        (Dataflow.run names larger).failure = none) ∧
      (Dataflow.run names initial).available ⊆ (Dataflow.run names larger).available ∧
      (Dataflow.run names initial).passed names ≤ (Dataflow.run names larger).passed names := by
  constructor
  · intro p documents assets settings supply compiled
    -- The draft does not look at the setting, so only the check of the data flow is compared.
    simp only [lower_eq_ok_iff, draft_seedEnd, Engine.checkAll_unseeded_iff]
    constructor
    · intro h
      obtain ⟨draft, hdraft, hcompiled, hcheck, hends⟩ := h
      exact ⟨⟨draft, hdraft, hcompiled, hcheck⟩, hends⟩
    · intro h
      obtain ⟨⟨draft, hdraft, hcompiled, hcheck⟩, hends⟩ := h
      exact ⟨draft, hdraft, hcompiled, hcheck, hends⟩
  · intro names initial larger hsub
    exact ⟨Dataflow.failure_eq_none_mono hsub, Dataflow.available_mono hsub,
      Dataflow.passed_mono hsub⟩

end Program

/-! ## A curtain that closes what it opens -/

namespace Curtain

/-- Both halves select the curtain. -/
def action : Action where
  name := "curtain"
  parameters := []
  body := .endable
    [Sample.callWith "selectElement" "#curtain" 3, Sample.callWith "addClass" "open" 4]
    [Sample.callWith "selectElement" "#curtain" 5, Sample.callWith "removeClass" "open" 6]
  location := .onLine 2

def program : Program where
  location := .onLine 1
  elements := [.action action, .timeline ⟨"main", "#stage", .raf, none, [], .onLine 7⟩]

/-- Settings in which ends are seeded or not. -/
def settings (seedEnd : Bool) : Settings := { Settings.deterministic with seedEnd }

end Curtain

namespace Program

/-- The curtain is lowered without seeding, so it is lowered to the same with seeding. Its first
half passes with nothing available, so it passes with a controller available, and leaves the element
that it selects in either case. -/
theorem lower_unseeded_iff_curtain :
    (∃ compiled,
      Curtain.program.lower .empty .empty (Curtain.settings false) .sequential = .ok compiled ∧
      Curtain.program.lower .empty .empty (Curtain.settings true) .sequential = .ok compiled) ∧
    (Dataflow.run ["selectElement", "addClass"] ["controllerInstance"]).failure = none ∧
      (Dataflow.run ["selectElement", "addClass"] []).available ⊆
        (Dataflow.run ["selectElement", "addClass"] ["controllerInstance"]).available := by
  constructor
  · obtain ⟨compiled, h⟩ := Except.exists_ok (m := Curtain.program.lower .empty .empty
      (Curtain.settings false) .sequential) (by decide +kernel)
    exact ⟨compiled, h, ((lower_unseeded_iff.1 _ _ _ _ _ _).mp h).1⟩
  · obtain ⟨hpasses, havailable, -⟩ := lower_unseeded_iff.2 ["selectElement", "addClass"] []
      ["controllerInstance"] (List.nil_subset _)
    exact ⟨hpasses (by decide +kernel), havailable⟩

end Program

end Cuesheet
