import Cuesheet.Proofs.Sites.Program

/-!
# Operations read what earlier ones have written

The run through a list of operations is a forward pass: it keeps what is available so far and stops
at the first operation that lacks something. Here it is tied to a condition that knows no state.
`Dataflow.Supplied` asks of one position of a list that everything its operation reads is there from
the start or written at an earlier position. A run passes exactly if every position is supplied, and
where it stops is the least position that is not.

What is available is compared as a set: the order in which entries are kept is not looked at.
-/

set_option autoImplicit false

namespace Cuesheet

theorem Catalogue.name_of_lookup? {name : String} {op : Signature}
    (h : Catalogue.lookup? name = some op) : op.name = name := by
  simpa using List.find?_some h

namespace Dataflow

/-! ## The condition -/

/-- All that the operations of a list write. -/
def outputs (names : List String) : List String :=
  (names.filterMap Catalogue.lookup?).flatMap (·.outputs)

/-- What the operation at position `i` may read: what is there from the start, and what operations
at earlier positions write. -/
def readable (initial names : List String) (i : Nat) : List String :=
  initial ++ outputs (names.take i)

/-- The operation at position `i` may read all that it depends on. A name that is not in the
catalogue depends on nothing, and neither does a position behind the end. -/
def Supplied (initial names : List String) (i : Nat) : Prop :=
  ∀ name op, names[i]? = some name → Catalogue.lookup? name = some op →
    ∀ dependency ∈ op.dependencies, dependency ∈ readable initial names i

/-- The run through a list stops at position `i` with the given complaint: no earlier position lacks
anything, and the complaint names the operation at `i` and the first of its dependencies, in the
order of the catalogue, that it may not read. -/
structure StopsAt (initial names : List String) (i : Nat) (complaint : Missing) : Prop where
  least : ∀ j < i, Supplied initial names j
  first : ∃ op, names[i]? = some op.name ∧ Catalogue.lookup? op.name = some op ∧
    op.dependencies.find? (· ∉ readable initial names i) = some complaint.dependency ∧
    complaint = ⟨op.name, complaint.dependency, hint op.name complaint.dependency⟩

theorem StopsAt.not_supplied {initial names : List String} {i : Nat} {complaint : Missing}
    (h : StopsAt initial names i complaint) : ¬ Supplied initial names i := by
  obtain ⟨op, hname, hop, hfind, -⟩ := h.first
  intro hsupplied
  have hmem := List.mem_of_find?_eq_some hfind
  have hlacking : complaint.dependency ∉ readable initial names i := by
    simpa using List.find?_some hfind
  exact hlacking (hsupplied _ op hname hop _ hmem)

theorem StopsAt.unique {initial names : List String} {i j : Nat} {complaint other : Missing}
    (h : StopsAt initial names i complaint) (h' : StopsAt initial names j other) :
    i = j ∧ complaint = other := by
  -- Of two different positions, the earlier one is supplied by the account of the later one.
  have hij : i = j := by
    rcases Nat.lt_trichotomy i j with hlt | heq | hlt
    · exact absurd (h'.least i hlt) h.not_supplied
    · exact heq
    · exact absurd (h.least j hlt) h'.not_supplied
  subst hij
  obtain ⟨op, hname, hop, hfind, hcomplaint⟩ := h.first
  obtain ⟨op', hname', hop', hfind', hother⟩ := h'.first
  have hnames : op.name = op'.name := Option.some.inj (hname.symm.trans hname')
  have hops : op = op' := by
    rw [hnames] at hop
    exact Option.some.inj (hop.symm.trans hop')
  subst hops
  have hdependency : complaint.dependency = other.dependency :=
    Option.some.inj (hfind.symm.trans hfind')
  rw [hdependency] at hcomplaint
  exact ⟨rfl, hcomplaint.trans hother.symm⟩

theorem Supplied.mono {initial larger names : List String} {i : Nat}
    (hsub : ∀ entry ∈ initial, entry ∈ larger) (h : Supplied initial names i) :
    Supplied larger names i := by
  intro name op hname hop dependency hmem
  have hreadable := h name op hname hop dependency hmem
  simp only [readable, List.mem_append] at hreadable ⊢
  exact hreadable.imp_left (hsub dependency)

/-! ## One operation -/

theorem mem_addEntry {available : Available} {entry other : String} :
    other ∈ addEntry available entry ↔ other ∈ available ∨ other = entry := by
  unfold addEntry
  split
  · rename_i h
    have hmem : entry ∈ available := by simpa using h
    constructor
    · exact .inl
    · rintro (h | rfl)
      · exact h
      · exact hmem
  · simp

/-- Behind an operation, what was available still is, and so is what it writes. -/
theorem mem_track {op : Signature} {available : Available} {entry : String} :
    entry ∈ track op available ↔ entry ∈ available ∨ entry ∈ op.outputs := by
  unfold track
  induction op.outputs generalizing available with
  | nil => simp
  | cons output rest ih => simp [ih, mem_addEntry, or_assoc]

theorem missing_eq_nil_iff {op : Signature} {available : Available} :
    missing op available = [] ↔ ∀ dependency ∈ op.dependencies, dependency ∈ available := by
  simp [missing]

/-- The first complaint is about the first dependency that is not available. -/
theorem missing_head? {op : Signature} {available : Available} :
    (missing op available).head? =
      (op.dependencies.find? (· ∉ available)).map fun dependency =>
        ⟨op.name, dependency, hint op.name dependency⟩ := by
  simp [missing, List.head?_filter, List.contains_eq_mem]

/-! ## The run -/

/-- The state of a run that has passed the operations of `passed`: none of them lacked anything,
and what is available is what was there and what they write. -/
structure Behind (initial names passed : List String) (available : Available) : Prop where
  leads : passed <+: names
  supplied : ∀ j < passed.length, Supplied initial names j
  available : ∀ entry, entry ∈ available ↔ entry ∈ initial ∨ entry ∈ outputs passed

/-- How a run through a list may end: it has passed everything, or stopped with a complaint. -/
def Outcome.Ends (initial names : List String) : Outcome → Prop
  | ⟨available, none⟩ => Behind initial names names available
  | ⟨available, some (i, complaint)⟩ =>
    StopsAt initial names i complaint ∧ Behind initial names (names.take i) available

namespace Behind

variable {initial names passed rest : List String} {available : Available} {name : String}

theorem start : Behind initial names [] initial :=
  ⟨List.nil_prefix, by simp, by simp [outputs]⟩

theorem take_eq (h : Behind initial names passed available) :
    names.take passed.length = passed :=
  (List.prefix_iff_eq_take.mp h.leads).symm

/-- What the next operation may read is what is available. -/
theorem mem_readable (h : Behind initial names passed available) {entry : String} :
    entry ∈ readable initial names passed.length ↔ entry ∈ available := by
  rw [readable, h.take_eq, List.mem_append, h.available]

theorem next_name (hnames : names = passed ++ name :: rest) :
    names[passed.length]? = some name := by
  simp [hnames]

/-- An operation whose dependencies are all available is passed, and what it writes is available
behind it. -/
theorem step (h : Behind initial names passed available) (hnames : names = passed ++ name :: rest)
    (behind : Available)
    (hreads : ∀ op, Catalogue.lookup? name = some op →
      ∀ dependency ∈ op.dependencies, dependency ∈ available)
    (hwrites : ∀ entry, entry ∈ behind ↔ entry ∈ available ∨ entry ∈ outputs [name]) :
    Behind initial names (passed ++ [name]) behind where
  leads := ⟨rest, by simp [hnames]⟩
  supplied := by
    intro j hj
    rcases Nat.lt_succ_iff_lt_or_eq.mp (by simpa using hj) with hlt | rfl
    · exact h.supplied j hlt
    · intro found op hfound hop dependency hmem
      rw [next_name hnames] at hfound
      cases hfound
      exact h.mem_readable.mpr (hreads op hop dependency hmem)
  available := by
    intro entry
    rw [hwrites, h.available, or_assoc]
    simp [outputs]

/-- An operation that lacks something stops the run, with a complaint about the first thing that it
lacks. -/
theorem stops (h : Behind initial names passed available) (hnames : names = passed ++ name :: rest)
    {op : Signature} (hop : Catalogue.lookup? name = some op) {complaint : Missing}
    {others : List Missing} (hmissing : missing op available = complaint :: others) :
    StopsAt initial names passed.length complaint where
  least := h.supplied
  first := by
    have hname := Catalogue.name_of_lookup? hop
    have hhead : (missing op available).head? = some complaint := by rw [hmissing]; rfl
    rw [missing_head?, Option.map_eq_some_iff] at hhead
    obtain ⟨dependency, hfind, rfl⟩ := hhead
    refine ⟨op, ?_, ?_, ?_, rfl⟩
    · rw [hname, next_name hnames]
    · rw [hname, hop]
    · simpa only [h.mem_readable] using hfind

/-- A run from a state behind some operations passes all that is left, or stops; then what is
available is what it was before the operation that stopped it. -/
theorem run (rest : List String) : ∀ {passed : List String} {available : Available},
    Behind initial names passed available → names = passed ++ rest →
    (runFrom passed.length rest available).Ends initial names := by
  -- By induction on what is left; `Behind` carries what has been passed so far.
  induction rest with
  | nil =>
    intro passed available h hnames
    rw [List.append_nil] at hnames
    rw [runFrom]
    exact hnames ▸ h
  | cons name rest ih =>
    intro passed available h hnames
    have hsplit : names = (passed ++ [name]) ++ rest := by simp [hnames]
    have hlength : passed.length + 1 = (passed ++ [name]).length := by simp
    rw [runFrom, hlength]
    cases hop : Catalogue.lookup? name with
    | none =>
      have hstep := h.step hnames available (by simp [hop]) (by simp [outputs, hop])
      exact ih hstep hsplit
    | some op =>
      cases hmissing : missing op available with
      | nil =>
        have hreads : ∀ found, Catalogue.lookup? name = some found →
            ∀ dependency ∈ found.dependencies, dependency ∈ available := by
          intro found hfound
          cases hop.symm.trans hfound
          exact missing_eq_nil_iff.mp hmissing
        have hstep := h.step hnames (track op available) hreads (by simp [mem_track, outputs, hop])
        simpa only [hmissing] using ih hstep hsplit
      | cons complaint others =>
        simp only [hmissing]
        exact ⟨h.stops hnames hop hmissing, h.take_eq.symm ▸ h⟩

theorem all (h : Behind initial names names available) (i : Nat) : Supplied initial names i := by
  by_cases hi : i < names.length
  · exact h.supplied i hi
  · -- Behind the end of the list there is no operation.
    intro name op hname
    rw [List.getElem?_eq_none (Nat.le_of_not_lt hi)] at hname
    cases hname

end Behind

section

variable {initial names : List String} {i : Nat} {complaint : Missing}

theorem run_ends (names initial : List String) : (run names initial).Ends initial names :=
  Behind.start.run names rfl

theorem behind_of_run (h : (run names initial).failure = none) :
    Behind initial names names (run names initial).available := by
  have hends := run_ends names initial
  generalize run names initial = outcome at h hends
  obtain ⟨available, failure⟩ := outcome
  cases h
  exact hends

theorem stopsAt_of_run (h : (run names initial).failure = some (i, complaint)) :
    StopsAt initial names i complaint ∧
      Behind initial names (names.take i) (run names initial).available := by
  have hends := run_ends names initial
  generalize run names initial = outcome at h hends
  obtain ⟨available, failure⟩ := outcome
  cases h
  exact hends

/-- A run passes exactly if every position is supplied. The run keeps what is available as a list
that grows, and `Supplied` looks back from a position at all before it; the induction brings the two
together. -/
theorem run_failure_eq_none_iff :
    (run names initial).failure = none ↔ ∀ i, Supplied initial names i := by
  constructor
  · exact fun h => (behind_of_run h).all
  · intro h
    cases hfailure : (run names initial).failure with
    | none => rfl
    | some stop => exact absurd (h stop.1) (stopsAt_of_run hfailure).1.not_supplied

/-- A run stops exactly where the least position that is not supplied stands, and says why. -/
theorem run_failure_eq_some_iff :
    (run names initial).failure = some (i, complaint) ↔ StopsAt initial names i complaint := by
  constructor
  · exact fun h => (stopsAt_of_run h).1
  · intro h
    cases hfailure : (run names initial).failure with
    | none => exact absurd (run_failure_eq_none_iff.mp hfailure i) h.not_supplied
    | some stop =>
      obtain ⟨j, other⟩ := stop
      obtain ⟨rfl, rfl⟩ := h.unique (stopsAt_of_run hfailure).1
      rfl

end

end Dataflow

/-! ## The lists of a configuration -/

namespace Engine

/-- Both halves of an action find what they read: the start from nothing, and the end from what the
start writes, or from nothing if ends are not seeded. -/
def HalvesSupplied (seedEnd : Bool) (start finish : List (Operation String)) : Prop :=
  (∀ i, Dataflow.Supplied [] (start.map (·.name)) i) ∧
    ∀ i, Dataflow.Supplied (if seedEnd then Dataflow.outputs (start.map (·.name)) else [])
      (finish.map (·.name)) i

theorem checkOperations_ok {map : SourceMap} {owner : String} {operations : List (Operation String)}
    {available behind : Dataflow.Available}
    (h : checkOperations map owner operations available = .ok behind) :
    Dataflow.Behind available (operations.map (·.name)) (operations.map (·.name)) behind := by
  unfold checkOperations at h
  simp only at h
  split at h
  · rename_i hnone
    cases h
    exact Dataflow.behind_of_run hnone
  · cases h

theorem checkHalves_ok {map : SourceMap} {seedEnd : Bool} {owner : String}
    {start finish : List (Operation String)}
    (h : checkHalves map seedEnd owner start finish = .ok ()) :
    HalvesSupplied seedEnd start finish := by
  obtain ⟨available, hstart, h⟩ := Except.bind_ok h
  obtain ⟨final, hfinish, -⟩ := Except.bind_ok h
  have hbehind := checkOperations_ok hstart
  refine ⟨hbehind.all, fun i => ((checkOperations_ok hfinish).all i).mono ?_⟩
  intro entry hentry
  -- The end starts with what the start has left, or with nothing.
  cases seedEnd with
  | true => simpa using (hbehind.available entry).mp (by simpa using hentry)
  | false => exact hentry

theorem checkAll_ok {map : SourceMap} {seedEnd : Bool} :
    ∀ {lists : List (String × List (Operation String) × List (Operation String))},
      checkAll map seedEnd lists = .ok () →
      ∀ half ∈ lists, HalvesSupplied seedEnd half.2.1 half.2.2
  | [], _, _, hmem => absurd hmem (by simp)
  | (owner, start, finish) :: rest, h, half, hmem => by
    obtain ⟨⟨⟩, hfirst, hrest⟩ := Except.bind_ok h
    rcases List.mem_cons.mp hmem with rfl | hmem
    · exact checkHalves_ok hfirst
    · exact checkAll_ok hrest half hmem

end Engine

/-- **The run through a list of operations decides whether it reads only what was written.** It
passes exactly if every position is supplied; then what is available is what was there and all that
the list writes. Otherwise it stops at the least position that is not supplied, with a complaint
about that operation and its first missing dependency, and what is available is what was there and
what the operations before that position write. So in every program that is lowered, the start of
every action reads only what it has written itself, and its end only what the start or the end has
written; if ends are not seeded, only what the end has written. -/
theorem Program.lower_supplied :
    (∀ names initial : List String,
      ((Dataflow.run names initial).failure = none ↔ ∀ i, Dataflow.Supplied initial names i) ∧
      ((Dataflow.run names initial).failure = none →
        ∀ entry, entry ∈ (Dataflow.run names initial).available ↔
          entry ∈ initial ∨ entry ∈ Dataflow.outputs names) ∧
      ∀ i complaint,
        ((Dataflow.run names initial).failure = some (i, complaint) ↔
          Dataflow.StopsAt initial names i complaint) ∧
        ((Dataflow.run names initial).failure = some (i, complaint) →
          ¬ Dataflow.Supplied initial names i ∧
          ∀ entry, entry ∈ (Dataflow.run names initial).available ↔
            entry ∈ initial ∨ entry ∈ Dataflow.outputs (names.take i))) ∧
    ∀ (p : Program) (documents : Documents) (assets : Assets) (settings : Settings)
      (supply : Engine.IdSupply) (compiled : Compiled),
      p.lower documents assets settings supply = .ok compiled →
      (∀ a ∈ compiled.config.initActions ++ compiled.config.actions,
        Engine.HalvesSupplied settings.seedEnd a.start a.finish) ∧
      (∀ a ∈ compiled.config.eventActions,
        ∀ i, Dataflow.Supplied [] (a.start.map (·.name)) i) ∧
      ∀ t ∈ compiled.config.timelines, ∀ a ∈ t.actions,
        Engine.HalvesSupplied settings.seedEnd a.start a.finish := by
  constructor
  · intro names initial
    refine ⟨Dataflow.run_failure_eq_none_iff, ?_, ?_⟩
    · exact fun h => (Dataflow.behind_of_run h).available
    · intro i complaint
      refine ⟨Dataflow.run_failure_eq_some_iff, ?_⟩
      intro h
      obtain ⟨hstops, hbehind⟩ := Dataflow.stopsAt_of_run h
      exact ⟨hstops.not_supplied, hbehind.available⟩
  · intro p documents assets settings supply compiled h
    obtain ⟨-, -, -, -, hcheck⟩ := Program.lower_ok h
    -- The lists that are checked are the halves of all actions, of event actions and of timelines.
    have hall := Engine.checkAll_ok hcheck
    simp only [Engine.Config.halves, List.mem_append, List.mem_map, List.mem_flatMap] at hall
    refine ⟨?_, ?_, ?_⟩
    · intro a ha
      exact hall _ (.inl (.inl ⟨a, List.mem_append.mp ha, rfl⟩))
    · intro a ha
      exact (hall _ (.inl (.inr ⟨a, ha, rfl⟩))).1
    · intro t ht a ha
      exact hall _ (.inr ⟨t, ht, a, ha, rfl⟩)

namespace Panel

/-- The start selects a panel, and the end clears what the start has selected. -/
def action : Action where
  name := "panel"
  parameters := []
  body := .endable [.call ⟨"selectElement", [.string "#panel" (.onLine 2)], .onLine 2⟩]
    [.call ⟨"clearElement", [], .onLine 3⟩]
  location := .onLine 1

/-- A program that shows the panel. -/
def program : Program where
  location := .onLine 4
  elements := [
    .action action,
    .timeline ⟨"main", "#stage", .raf, none, [
      .timed (.literal 0 .s (.onLine 6)) (.literal 2 .s (.onLine 6))
        (.named ⟨"panel", [], .onLine 6⟩)
        (.onLine 6)], .onLine 5⟩]

end Panel

/-- A run passes over a name that is not in the catalogue and stops at a controller that is not
there. An end that reads what its start has written is lowered, but only if ends are seeded. -/
theorem Program.lower_supplied_panel :
    Dataflow.StopsAt [] ["jingle", "selectElement", "addControllerToElement"] 2
        ⟨"addControllerToElement", "controllerInstance",
          "Add a call to getControllerInstance() before addControllerToElement()."⟩ ∧
      (∃ compiled, Panel.program.lower .empty .empty .deterministic .sequential =
          .ok compiled ∧
        ∀ a ∈ compiled.config.actions, Engine.HalvesSupplied true a.start a.finish) ∧
      (Panel.program.lower .empty .empty { Settings.deterministic with seedEnd := false }
        .sequential).toBool = false := by
  refine ⟨?_, ?_, by decide +kernel⟩
  · exact ((Program.lower_supplied.1 _ _).2.2 _ _).1.mp (by decide +kernel)
  · obtain ⟨compiled, h⟩ := Except.exists_ok (m := Panel.program.lower .empty .empty
      .deterministic .sequential) (by decide +kernel)
    refine ⟨compiled, h, fun a ha => ?_⟩
    exact (Program.lower_supplied.2 _ _ _ _ _ _ h).1 a (List.mem_append_right _ ha)

end Cuesheet
