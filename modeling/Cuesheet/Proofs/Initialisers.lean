import Cuesheet.Proofs.Dangling
import Cuesheet.Proofs.Globals

/-!
# The order of initialisers

The init action sets every run-time global once. A global that is declared again keeps its place
among the properties and takes the value of the later declaration, whose initialiser already sees
the name itself and all that was declared in between. So the initialiser that is written for a
global is that of its last declaration (`Program.Writes`), while its place is that of its first.

For a global that is declared once the two are the same, and its initialiser reads only what stands
before it. For one that is declared again they are not, and the initialisers can read each other in
a circle.
-/

set_option autoImplicit false

namespace Cuesheet

/-! ## Positions -/

theorem idxOf_concat_lt_iff (names : List String) (name m n : String) :
    (names ++ [name]).idxOf m < (names ++ [name]).idxOf n ↔
      names.idxOf m < names.idxOf n ∨ (m ∉ names ∧ n ∉ names ∧ name = m ∧ name ≠ n) := by
  rw [List.idxOf_append, List.idxOf_append]
  by_cases hm : m ∈ names <;> by_cases hn : n ∈ names
  · simp [hm, hn]
  · have := List.idxOf_lt_length_of_mem hm
    simp only [hm, hn, List.idxOf_eq_length hn, if_pos, if_false]
    grind
  · have := List.idxOf_lt_length_of_mem hn
    simp only [hm, hn, List.idxOf_eq_length hm, if_pos, if_false]
    grind
  · simp only [hm, hn, List.idxOf_eq_length hm, List.idxOf_eq_length hn, if_false, List.idxOf_cons]
    grind

theorem idxOf_filter_lt_iff {keep : String → Bool} {m n : String} (hm : keep m = true)
    (hn : keep n = true) (names : List String) :
    (names.filter keep).idxOf m < (names.filter keep).idxOf n ↔ names.idxOf m < names.idxOf n := by
  induction names using List.reverseRecOn with
  | nil => rfl
  | append_singleton names name ih =>
    -- A name that is dropped is neither of the two.
    rw [List.filter_append, idxOf_concat_lt_iff, ← ih]
    by_cases hkeep : keep name = true
    · rw [List.filter_cons_of_pos hkeep, List.filter_nil, idxOf_concat_lt_iff]
      simp [hm, hn]
    · have hname : name ≠ m := fun heq => hkeep (heq ▸ hm)
      simp [hkeep, hname]

/-- Of two names, the one that is added first stands first. -/
theorem idxOf_eraseDups_lt_iff (names : List String) (m n : String) :
    names.eraseDups.idxOf m < names.eraseDups.idxOf n ↔ names.idxOf m < names.idxOf n := by
  induction names using List.reverseRecOn with
  | nil => rfl
  | append_singleton names name ih =>
    rw [eraseDups_concat, addName, idxOf_concat_lt_iff, ← ih]
    simp only [List.mem_eraseDups]
    split
    · rename_i hold
      refine (or_iff_left ?_).symm
      rintro ⟨hm, -, rfl, -⟩
      exact hm hold
    · rw [idxOf_concat_lt_iff]
      simp only [List.mem_eraseDups]

theorem exists_last_named {name : String} : ∀ {declarations : List Declaration},
    name ∈ declarations.map (·.name) →
    ∃ before d behind, declarations = before ++ d :: behind ∧ d.name = name ∧
      ∀ later ∈ behind, later.name ≠ name
  | [], h => nomatch h
  | d :: rest, h => by
    by_cases hrest : name ∈ rest.map (·.name)
    · obtain ⟨before, last, behind, rfl, hlast, hbehind⟩ := exists_last_named hrest
      exact ⟨d :: before, last, behind, rfl, hlast, hbehind⟩
    · have hd : name = d.name := (List.mem_cons.mp h).resolve_right hrest
      refine ⟨[], d, rest, rfl, hd.symm, ?_⟩
      intro later hlater heq
      exact hrest (List.mem_map.mpr ⟨later, hlater, heq⟩)

/-! ## What the pass over the declarations keeps -/

namespace RuntimeGlobals

variable {constants : Constants}

theorem collect_append (before behind : List Declaration) (found : RuntimeGlobals) :
    collect constants found (before ++ behind) =
      collect constants found before >>= fun found => collect constants found behind := by
  induction before generalizing found with
  | nil => rfl
  | cons d rest ih =>
    rw [List.cons_append, collect, collect]
    split
    · exact ih found
    · simp only [bind_assoc, ih]

/-- The value of a name stays as it is while other names are declared. -/
theorem get?_of_collect {name : String} : ∀ {declarations : List Declaration}
    {found runtime : RuntimeGlobals}, collect constants found declarations = .ok runtime →
    (∀ d ∈ declarations, d.name ≠ name) →
    Dict.get? runtime.values name = Dict.get? found.values name
  | [], found, runtime, h, _ => by
    cases h
    rfl
  | d :: rest, found, runtime, h, hother => by
    have hrest : ∀ d ∈ rest, d.name ≠ name := fun d hd => hother d (List.mem_cons_of_mem _ hd)
    rw [collect] at h
    by_cases hd : constants.contains d.name = true
    · rw [if_pos hd] at h
      exact get?_of_collect h hrest
    · -- Another name is set, and the dictionary is unchanged under this one.
      rw [if_neg hd] at h
      obtain ⟨value, -, h⟩ := Except.bind_ok h
      rw [get?_of_collect h hrest]
      exact Dict.get?_set_of_ne _ value (hother d (List.mem_cons_self ..)).symm

end RuntimeGlobals

/-- The initialiser reads the name with `@name`, and the name is not a constant. -/
def Declaration.Reads (constants : Constants) (d : Declaration) (name : String) : Prop :=
  constants.contains name = false ∧ ∃ location, .variable name location ∈ d.value.references

namespace Program

/-- What an initialiser sees behind some of the declarations. -/
def initialiserScope (p : Program) (before : List Declaration) : Scope :=
  .top ⟨p.constants,
    ((before.map (·.name)).filter fun name => !p.constants.contains name).eraseDups⟩

/-- The last declaration of a run-time global, and what is declared around it. -/
structure Writes (p : Program) (before : List Declaration) (d : Declaration)
    (behind : List Declaration) : Prop where
  declarations_eq : p.declarations = before ++ d :: behind
  runtime : p.constants.contains d.name = false
  last : ∀ later ∈ behind, later.name ≠ d.name

variable {p : Program} {runtime : RuntimeGlobals} {before behind : List Declaration}
  {d : Declaration}
  {name : String}

/-- Whatever an initialiser reads is declared before it. Otherwise the name would dangle in the
scope of the initialiser, and it could not have been lowered. -/
theorem declared_of_reads {value : Json}
    (hvalue : d.value.lower (p.initialiserScope before) = .ok value)
    (hreads : d.Reads p.constants name) : name ∈ before.map (·.name) := by
  obtain ⟨hruntime, location, hmem⟩ := hreads
  have hresolves := Reference.failure?_eq_none_iff.mp
    (Lowered.failure?_eq_none_iff.mpr (Expr.lowers_of_lower hvalue _ hmem))
  rcases hresolves with hitem | hlocal | hglobal | hlocal | hconstant
  · cases hitem
  · cases hlocal
  · exact (List.mem_filter.mp (List.mem_eraseDups.mp hglobal)).1
  · cases hlocal
  · rw [show p.constants.contains name = true from hconstant] at hruntime
    cases hruntime

theorem lower_declared_global (hruntime : p.constants.contains name = false)
    (hname : name ∈ before.map (·.name)) (location : Location) :
    Expr.lower (p.initialiserScope before) (.variable name location) =
      .ok (.string (DataPath.globalVariable name)) := by
  have hnone : p.constants.constant? name = none := by
    rw [← Option.not_isSome_iff_eq_none, Constants.isSome_constant?, hruntime]
    exact Bool.false_ne_true
  refine Scope.means_runtime hnone ?_ (.top _) [] location .top ?_
  · simpa [hruntime] using hname
  · simp [Scope.Shadows, Scope.InnermostLoop]

/-- Run-time globals stand in the order in which they are declared first. A later declaration of a
name does not move it. -/
theorem idxOf_names_lt_iff
    (h : RuntimeGlobals.collect p.constants .empty p.declarations = .ok runtime)
    {m n : String} (hm : p.constants.contains m = false) (hn : p.constants.contains n = false) :
    runtime.names.idxOf m < runtime.names.idxOf n ↔
      (p.declarations.map (·.name)).idxOf m < (p.declarations.map (·.name)).idxOf n := by
  rw [RuntimeGlobals.names_of_collect h, idxOf_eraseDups_lt_iff, idxOf_filter_lt_iff]
  · simp [hm]
  · simp [hn]

namespace Writes

theorem get? (hwrites : p.Writes before d behind)
    (h : RuntimeGlobals.collect p.constants .empty p.declarations = .ok runtime) :
    ∃ value, d.value.lower (p.initialiserScope before) = .ok value ∧
      Dict.get? runtime.values d.name = some value := by
  rw [hwrites.declarations_eq, RuntimeGlobals.collect_append] at h
  obtain ⟨found, hbefore, h⟩ := Except.bind_ok h
  rw [RuntimeGlobals.collect, hwrites.runtime] at h
  obtain ⟨value, hvalue, h⟩ := Except.bind_ok h
  refine ⟨value, ?_, ?_⟩
  · rw [initialiserScope, ← RuntimeGlobals.names_of_collect hbefore]
    exact hvalue
  · rw [RuntimeGlobals.get?_of_collect h hwrites.last]
    exact Dict.get?_set _ _ _

/-- Every name that is set has a last declaration. -/
theorem exists_of_mem_names
    (h : RuntimeGlobals.collect p.constants .empty p.declarations = .ok runtime)
    (hname : name ∈ runtime.names) :
    ∃ before d behind, p.Writes before d behind ∧ d.name = name := by
  rw [RuntimeGlobals.names_of_collect h, List.mem_eraseDups, List.mem_filter] at hname
  obtain ⟨before, d, behind, hsplit, rfl, hlast⟩ := exists_last_named hname.1
  exact ⟨before, d, behind, ⟨hsplit, by simpa using hname.2, hlast⟩, rfl⟩

/-- A name that is declared before the first declaration of the global is declared first. -/
theorem idxOf_lt_of_first (hwrites : p.Writes before d behind) (hname : name ∈ before.map (·.name))
    (hfirst : ∀ e ∈ before, e.name ≠ d.name) :
    (p.declarations.map (·.name)).idxOf name < (p.declarations.map (·.name)).idxOf d.name := by
  have hd : d.name ∉ before.map (·.name) := by
    intro hmem
    obtain ⟨e, he, heq⟩ := List.mem_map.mp hmem
    exact hfirst e he heq
  rw [hwrites.declarations_eq, List.map_append, List.idxOf_append_of_mem hname,
    List.idxOf_append_of_notMem hd]
  exact Nat.lt_add_right _ (List.idxOf_lt_length_of_mem hname)

/-- The initialiser that is written for a name stands before, unless the name is declared again. -/
theorem not_replaced_iff (hwrites : p.Writes before d behind)
    (hruntime : p.constants.contains name = false) (hname : name ∈ before.map (·.name)) :
    (∃ earlier e between, before = earlier ++ e :: between ∧ e.name = name ∧
      p.Writes earlier e (between ++ d :: behind)) ↔ ∀ later ∈ d :: behind, later.name ≠ name := by
  constructor
  · rintro ⟨earlier, e, between, -, rfl, he⟩ later hlater
    exact he.last later (List.mem_append_right _ hlater)
  · intro hlater
    obtain ⟨earlier, e, between, rfl, rfl, hbetween⟩ := exists_last_named hname
    refine ⟨earlier, e, between, rfl, rfl, ?_, hruntime, ?_⟩
    · rw [hwrites.declarations_eq, List.append_assoc, List.cons_append]
    · intro later hmem
      rcases List.mem_append.mp hmem with hmem | hmem
      · exact hbetween later hmem
      · exact hlater later hmem

end Writes

/-- **Initialisers are in order except around a repeated declaration.** If a program is lowered, its
init action writes for every run-time global the initialiser of its last declaration. What that
initialiser reads is declared before it and is lowered to the path of a global that is written too.
The global that it reads stands earlier among the properties if and only if its first declaration
comes before the first declaration of the global that is set, which is so if that one is not
declared before. What is written for the global that it reads is an initialiser from before it if
and only if that global is not declared there or later. -/
theorem lower_initialisers {documents : Documents} {assets : Assets} {settings : Settings}
    {supply : Engine.IdSupply} {compiled : Compiled}
    (h : p.lower documents assets settings supply = .ok compiled) {a : Engine.Action String}
    (ha : a ∈ compiled.config.initActions) :
    ∃ id values, a.start = [⟨id, "setGlobalData", [("properties", .object values)]⟩] ∧
      (∀ k ∈ Dict.keys values, ∃ before d behind, p.Writes before d behind ∧ d.name = k) ∧
      ∀ before d behind, p.Writes before d behind →
        (∃ value, d.value.lower (p.initialiserScope before) = .ok value ∧
          Dict.get? values d.name = some value) ∧
        ∀ n, d.Reads p.constants n →
          (∀ location, Expr.lower (p.initialiserScope before) (.variable n location) =
            .ok (.string (DataPath.globalVariable n))) ∧
          n ∈ Dict.keys values ∧
          ((Dict.keys values).idxOf n < (Dict.keys values).idxOf d.name ↔
            (p.declarations.map (·.name)).idxOf n < (p.declarations.map (·.name)).idxOf d.name) ∧
          ((∀ e ∈ before, e.name ≠ d.name) →
            (Dict.keys values).idxOf n < (Dict.keys values).idxOf d.name) ∧
          ((∃ earlier e between, before = earlier ++ e :: between ∧ e.name = n ∧
              p.Writes earlier e (between ++ d :: behind)) ↔
            ∀ later ∈ d :: behind, later.name ≠ n) := by
  obtain ⟨draft, hdraft, hconfig, -, -⟩ := Program.lower_ok h
  obtain ⟨parts, hparts, rfl⟩ := Program.draft_eq_ok_iff.mp hdraft
  have hcollect := hparts.runtime
  -- The init action of the configuration has the shape of the one in the draft, so its values are
  -- those that were collected.
  have hshape := Engine.Config.withoutIds_withIds supply settings.configId
    (parts.draft p assets settings).config
  rw [← hconfig] at hshape
  obtain ⟨-, -, id, hstart⟩ := (RuntimeGlobals.initActions_of_map
    (congrArg Engine.Config.initActions hshape)).2 a ha
  have hkeys := RuntimeGlobals.keys_of_collect hcollect rfl
  refine ⟨id, parts.runtime.values, hstart, ?_, ?_⟩
  · intro k hk
    exact Writes.exists_of_mem_names hcollect (hkeys ▸ hk)
  intro before d behind hwrites
  obtain ⟨value, hvalue, hget⟩ := hwrites.get? hcollect
  refine ⟨⟨value, hvalue, hget⟩, ?_⟩
  intro n hreads
  -- The initialiser was lowered, so what it reads was declared before it.
  have hdeclared := declared_of_reads hvalue hreads
  have horder := idxOf_names_lt_iff hcollect hreads.1 hwrites.runtime
  rw [hkeys]
  refine ⟨lower_declared_global hreads.1 hdeclared, ?_, horder, ?_, ?_⟩
  · rw [RuntimeGlobals.names_of_collect hcollect, hwrites.declarations_eq, List.mem_eraseDups,
      List.map_append, List.filter_append]
    exact List.mem_append_left _ (List.mem_filter.mpr ⟨hdeclared, by simp [hreads.1]⟩)
  · intro hfirst
    exact horder.mpr (hwrites.idxOf_lt_of_first hdeclared hfirst)
  · exact hwrites.not_replaced_iff hreads.1 hdeclared

end Program

namespace Pendulum

def swing : Declaration := ⟨"swing", .system "time" (.onLine 1), .onLine 1⟩

def back : Declaration := ⟨"back", .variable "swing" (.onLine 2), .onLine 2⟩

/-- Declares the first global again, from the second. -/
def again : Declaration := ⟨"swing", .variable "back" (.onLine 3), .onLine 3⟩

def program : Program where
  elements := [.declaration swing, .declaration back, .declaration again,
    .timeline ⟨"main", "#stage", .raf, none, [], .onLine 4⟩]
  location := .onLine 1

theorem writes_back : program.Writes [swing] back [again] where
  declarations_eq := rfl
  runtime := by decide +kernel
  last := by decide

theorem writes_again : program.Writes [swing, back] again [] where
  declarations_eq := rfl
  runtime := by decide +kernel
  last := nofun

end Pendulum

/-- The two initialisers read each other, the one that is set first reads the later one, and what
the second reads is no longer what it was declared from. -/
theorem Program.lower_initialisers_pendulum :
    ∃ compiled a id values,
      Pendulum.program.lower .empty .empty .deterministic .sequential = .ok compiled ∧
      a ∈ compiled.config.initActions ∧
      a.start = [⟨id, "setGlobalData", [("properties", .object values)]⟩] ∧
      Dict.get? values "swing" = some (.string "$globaldata.back") ∧
      Dict.get? values "back" = some (.string "$globaldata.swing") ∧
      ¬ (Dict.keys values).idxOf "back" < (Dict.keys values).idxOf "swing" ∧
      ¬ ∃ earlier e between, [Pendulum.swing] = earlier ++ e :: between ∧ e.name = "swing" ∧
          Pendulum.program.Writes earlier e (between ++ [Pendulum.back, Pendulum.again]) := by
  obtain ⟨compiled, h, hone⟩ := Except.exists_ok_of_map (b := 1)
    (m := Pendulum.program.lower .empty .empty .deterministic .sequential)
    (f := fun compiled => compiled.config.initActions.length) (by decide +kernel)
  obtain ⟨a, hinit⟩ := List.length_eq_one_iff.mp hone
  have ha : a ∈ compiled.config.initActions := by rw [hinit]; exact List.mem_singleton_self a
  obtain ⟨id, values, hstart, -, hwritten⟩ := Program.lower_initialisers h ha
  have hruntime : ∀ name ∈ ["swing", "back"], Pendulum.program.constants.contains name = false := by
    decide +kernel
  obtain ⟨⟨swung, hlowered, hswing⟩, hreads⟩ := hwritten _ _ _ Pendulum.writes_again
  obtain ⟨hpath, -, horder, -, -⟩ :=
    hreads "back" ⟨hruntime _ (by decide), .onLine 3, List.mem_singleton_self _⟩
  cases hlowered.symm.trans (hpath (.onLine 3))
  obtain ⟨⟨returned, hlowered, hback⟩, hreads⟩ := hwritten _ _ _ Pendulum.writes_back
  obtain ⟨hpath, -, -, -, hreplaced⟩ :=
    hreads "swing" ⟨hruntime _ (by decide), .onLine 2, List.mem_singleton_self _⟩
  cases hlowered.symm.trans (hpath (.onLine 2))
  refine ⟨compiled, a, id, values, h, ha, hstart, hswing, hback, ?_, ?_⟩
  · exact fun hlt => absurd (horder.mp hlt) (by decide)
  · exact fun hbefore => hreplaced.mp hbefore Pendulum.again (by simp) rfl

end Cuesheet
