import Cuesheet.Proofs.Folding
import Cuesheet.Proofs.Reordering

/-!
# Constants and run-time globals

The declarations of a program are gone through twice. First they are folded, which gives the
constants. Then those whose name is not among all the constants are lowered one by one, which gives
the globals that are set at run time. A name can be declared several times, with an initialiser that
folds and with one that does not, and in either order. The second pass looks at names, so all
declarations of a name end on the same side.

`RuntimeGlobals.names_of_collect` and `RuntimeGlobals.keys_of_collect` say what the second pass
finds. What `@name` means follows from the side that the name is on, in every scope in which nothing
nearer has the name (`Scope.Means`).
-/

set_option autoImplicit false

namespace Cuesheet

/-! ## Names in the order in which they were added -/

/-- Adding a name keeps the first of two, like `eraseDups`. -/
theorem eraseDups_concat (names : List String) (name : String) :
    (names ++ [name]).eraseDups = addName names.eraseDups name := by
  rw [List.eraseDups_append]
  unfold addName
  by_cases hmem : name ∈ names
  · simp [List.removeAll, hmem]
  · simp [List.removeAll, hmem, List.eraseDups_cons]

/-- A dictionary that is only ever set lists its names in the order in which they were set first. -/
theorem Dict.keys_set {α : Type} (dict : Dict α) (name : String) (value : α) :
    keys (set dict name value) = addName (keys dict) name := by
  unfold addName
  split
  · rename_i hmem
    induction dict with
    | nil => cases hmem
    | cons entry rest ih =>
      obtain ⟨key, old⟩ := entry
      rw [set]
      split
      · rfl
      · rename_i hne
        have hrest : name ∈ keys rest :=
          (List.mem_cons.mp hmem).resolve_left fun heq => hne heq.symm
        show key :: keys (set rest name value) = key :: keys rest
        rw [ih hrest]
  · rename_i hnew
    rw [set_of_not_mem_keys value hnew, keys, List.map_append]
    rfl

/-! ## What is set at run time -/

namespace RuntimeGlobals

/-- **The names that are set at run time** are those that are no constants, in the order of their
first declarations. Whether a single declaration folds does not matter: if another one of the same
name does, the name is a constant. By induction from the end, since names are added there. -/
theorem names_of_collect {constants : Constants} {declarations : List Declaration}
    {runtime : RuntimeGlobals} (h : collect constants .empty declarations = .ok runtime) :
    runtime.names =
      ((declarations.map (·.name)).filter fun name => !constants.contains name).eraseDups := by
  rw [(collect_ok h).1]
  show List.foldl _ [] declarations = _
  clear h
  induction declarations using List.reverseRecOn with
  | nil => rfl
  | append_singleton declarations d ih =>
    rw [List.foldl_append, ih, List.map_append, List.filter_append]
    by_cases hd : constants.contains d.name = true
    · simp [hd]
    · simp [hd, eraseDups_concat]

/-- Every name that is added gets a value in the same step. So the init action, which sets the
values, sets just these names. -/
theorem keys_of_collect {constants : Constants} :
    ∀ {declarations : List Declaration} {found runtime : RuntimeGlobals},
      collect constants found declarations = .ok runtime →
      Dict.keys found.values = found.names → Dict.keys runtime.values = runtime.names
  | [], found, runtime, h, hfound => by
    cases h
    exact hfound
  | d :: rest, found, runtime, h, hfound => by
    rw [collect] at h
    by_cases hd : constants.contains d.name = true
    · rw [if_pos hd] at h
      exact keys_of_collect h hfound
    · rw [if_neg hd] at h
      obtain ⟨value, -, h⟩ := Except.bind_ok h
      refine keys_of_collect h ?_
      rw [Dict.keys_set, hfound]

/-- The place of the init action is that of the first declaration that is set at run time. -/
theorem first_eq_none_iff {constants : Constants} {declarations : List Declaration}
    {runtime : RuntimeGlobals} (h : collect constants .empty declarations = .ok runtime) :
    runtime.first = none ↔ runtime.names = [] := by
  rw [names_of_collect h, (collect_ok h).2, List.eq_nil_iff_forall_not_mem]
  show Option.map _ _ = none ↔ _
  rw [Option.map_eq_none_iff, List.find?_eq_none]
  simp only [List.mem_eraseDups, List.mem_filter, List.mem_map, not_and]
  constructor
  · rintro hall _ ⟨d, hd, rfl⟩
    exact hall d hd
  · intro hall d hd
    exact hall d.name ⟨d, hd, rfl⟩

/-- With other ids, the init action is still there for the same globals and sets them all at once.
The configuration has been numbered when it is looked at, so only its shape can be compared with
what was collected. -/
theorem initActions_of_map {runtime : RuntimeGlobals} {actions : List (Engine.Action String)}
    (h : actions.map (·.map fun _ => ()) = runtime.initActions.map (·.map fun _ => ())) :
    (actions = [] ↔ runtime.first = none) ∧
    ∀ a ∈ actions, actions = [a] ∧ a.finish = [] ∧
      ∃ id, a.start = [⟨id, "setGlobalData", [("properties", .object runtime.values)]⟩] := by
  unfold initActions at h
  cases hfirst : runtime.first with
  | none =>
    rw [hfirst] at h
    have hnil : actions = [] := List.map_eq_nil_iff.mp h
    rw [hnil]
    exact ⟨iff_of_true rfl rfl, nofun⟩
  | some location =>
    rw [hfirst] at h
    obtain ⟨a, rfl, ha⟩ := List.map_eq_singleton_iff.mp h
    refine ⟨by simp, ?_⟩
    intro b hb
    cases List.mem_singleton.mp hb
    -- The shape of the one action leaves nothing open but the ids.
    have hstart := congrArg Engine.Action.start ha
    have hfinish := congrArg Engine.Action.finish ha
    obtain ⟨⟨id, name, data⟩, ho, hdata⟩ := List.map_eq_singleton_iff.mp hstart
    cases hdata
    exact ⟨rfl, List.map_eq_nil_iff.mp hfinish, id, ho⟩

end RuntimeGlobals

/-! ## What `@name` means -/

namespace Scope

/-- Behind the steps, the name belongs to the innermost loop or to something declared on the way. -/
def Shadows (steps : List Step) (name : String) : Prop :=
  InnermostLoop name steps ∨ ∃ step ∈ steps, step.Declares name

/-- Wherever nothing nearer has the name, `@name` is lowered to the value. -/
def Means (globals : Globals) (name : String) (value : Json) : Prop :=
  ∀ start steps location, Opens globals start → ¬ Shadows steps name →
    Expr.lower (start.follow steps) (.variable name location) = .ok value

variable {globals : Globals} {name : String}

/-- Where nothing nearer has the name, it is looked up among the declared ones. The scope that a
program starts from is in no loop, so the item of a loop could only come from the steps. -/
theorem lower_of_not_shadows {start : Scope} (hstart : Opens globals start) {steps : List Step}
    (h : ¬ Shadows steps name) (location : Location) :
    Expr.lower (start.follow steps) (.variable name location) =
      (start.follow steps).lowerDeclared name location := by
  rw [lower_variable, if_neg]
  intro hitem
  rcases innermostLoop_or_of_loopItem? hitem with hinnermost | ⟨-, hnone⟩
  · exact h (.inl hinnermost)
  · rw [loopItem?, hstart.loops_eq] at hnone
    cases hnone

/-- Both sides of the division in turn: a constant is replaced by its value, and a global by the
path under which the engine keeps it. -/
theorem means_constant {value : Json} (hvalue : globals.constants.constant? name = some value) :
    Means globals name value := by
  intro start steps location hstart h
  rw [lower_of_not_shadows hstart h]
  exact (lowerDeclared_follow_of_global hstart (fun step hstep hd => h (.inr ⟨step, hstep, hd⟩))
    location).1 value hvalue

theorem means_runtime (hnone : globals.constants.constant? name = none)
    (hruntime : name ∈ globals.runtime) :
    Means globals name (.string (DataPath.globalVariable name)) := by
  intro start steps location hstart h
  rw [lower_of_not_shadows hstart h]
  exact (lowerDeclared_follow_of_global hstart (fun step hstep hd => h (.inr ⟨step, hstep, hd⟩))
    location).2.1 hnone hruntime

end Scope

/-! ## Both sides -/

theorem Program.declared_of_contains {p : Program} {name : String}
    (h : p.constants.contains name = true) : ∃ d ∈ p.declarations, d.name = name := by
  obtain ⟨before, d, value, hfolds, hname⟩ := Constants.contains_ofDeclarations_iff.mp h
  exact ⟨d, hfolds.1.subset (by simp), hname⟩

/-- **The declared names are divided into constants and run-time globals.** If a program is lowered,
every name that it declares is on exactly one side. The init action is there if some name is set at
run time, and its one operation sets these names in the order in which they are declared first.
Wherever nothing nearer has the name, `@name` means the constant or the global, and the same in all
of the program. -/
theorem Program.lower_globals {p : Program} {documents : Documents} {assets : Assets}
    {settings : Settings} {supply : Engine.IdSupply} {compiled : Compiled}
    (h : p.lower documents assets settings supply = .ok compiled) :
    ∃ parts : Parts, parts.Of p documents settings ∧
      (∀ name, p.constants.contains name = true → name ∉ parts.runtime.names) ∧
      (∀ name, p.constants.contains name = true ∨ name ∈ parts.runtime.names ↔
        ∃ d ∈ p.declarations, d.name = name) ∧
      parts.runtime.names =
        ((p.declarations.map (·.name)).filter fun name => !p.constants.contains name).eraseDups ∧
      (compiled.config.initActions ≠ [] ↔ parts.runtime.names ≠ []) ∧
      (∀ a ∈ compiled.config.initActions, compiled.config.initActions = [a] ∧ a.finish = [] ∧
        ∃ id values, a.start = [⟨id, "setGlobalData", [("properties", .object values)]⟩] ∧
          Dict.keys values = parts.runtime.names) ∧
      ∀ d ∈ p.declarations,
        (∃ value, p.constants.constant? d.name = some value ∧
          Scope.Means ⟨p.constants, parts.runtime.names⟩ d.name value) ∨
        (d.name ∈ parts.runtime.names ∧
          Scope.Means ⟨p.constants, parts.runtime.names⟩ d.name
            (.string (DataPath.globalVariable d.name))) := by
  -- The draft has what was collected, and numbering it keeps its shape.
  obtain ⟨draft, hdraft, hconfig, -, -⟩ := Program.lower_ok h
  obtain ⟨parts, hparts, rfl⟩ := Program.draft_eq_ok_iff.mp hdraft
  have hnames := RuntimeGlobals.names_of_collect hparts.runtime
  have hkeys := RuntimeGlobals.keys_of_collect hparts.runtime rfl
  have hmem : ∀ name, name ∈ parts.runtime.names ↔
      (∃ d ∈ p.declarations, d.name = name) ∧ p.constants.contains name = false := by
    simp [hnames]
  have hshape := Engine.Config.withoutIds_withIds supply settings.configId
    (parts.draft p assets settings).config
  rw [← hconfig] at hshape
  obtain ⟨hempty, hinit⟩ := RuntimeGlobals.initActions_of_map
    (congrArg Engine.Config.initActions hshape)
  refine ⟨parts, hparts, ?_, ?_, hnames, ?_, ?_, ?_⟩
  · intro name hconstant hruntime
    rw [((hmem name).mp hruntime).2] at hconstant
    cases hconstant
  · intro name
    rw [hmem]
    cases hconstant : p.constants.contains name with
    | true => simpa using declared_of_contains hconstant
    | false => simp
  · rw [not_iff_not, hempty, RuntimeGlobals.first_eq_none_iff hparts.runtime]
  · intro a ha
    obtain ⟨hsingle, hfinish, id, hstart⟩ := hinit a ha
    exact ⟨hsingle, hfinish, id, parts.runtime.values, hstart, hkeys⟩
  · intro d hd
    cases hconstant : p.constants.constant? d.name with
    | some value => exact .inl ⟨value, rfl, Scope.means_constant hconstant⟩
    | none =>
      have hcontains : p.constants.contains d.name = false := by
        rw [← Constants.isSome_constant?, hconstant]
        rfl
      have hruntime := (hmem d.name).mpr ⟨⟨d, hd, rfl⟩, hcontains⟩
      exact .inr ⟨hruntime, Scope.means_runtime hconstant hruntime⟩

namespace Scoreboard

def now (name : String) (n : UInt32) : Declaration := ⟨name, .system "time" (.onLine n), .onLine n⟩

/-- Folds, behind a declaration of the same name that does not. -/
def speed : Declaration := ⟨"speed", .number 2 (.onLine 3), .onLine 3⟩

/-- Reads another global that is set at run time. -/
def shown : Declaration := ⟨"shown", .variable "clock" (.onLine 4), .onLine 4⟩

def program : Program where
  elements := [.declaration (now "clock" 1), .declaration (now "speed" 2), .declaration speed,
    .declaration shown, .declaration (now "clock" 5),
    .timeline ⟨"main", "#stage", .raf, none, [], .onLine 6⟩]
  location := .onLine 1

end Scoreboard

/-- The first declaration of `speed` does not fold and the second one does, so `speed` is a
constant. `clock` is declared twice and set once, and `shown` reads it at run time. -/
theorem Program.lower_globals_scoreboard :
    ∃ compiled,
      Scoreboard.program.lower .empty .empty .deterministic .sequential = .ok compiled ∧
      compiled.config.initActions ≠ [] ∧
      ∃ parts : Program.Parts, parts.Of Scoreboard.program .empty .deterministic ∧
        parts.runtime.names = ["clock", "shown"] ∧
        Scope.Means ⟨Scoreboard.program.constants, parts.runtime.names⟩ "speed" (.int 2) ∧
        Scope.Means ⟨Scoreboard.program.constants, parts.runtime.names⟩ "shown"
          (.string "$globaldata.shown") := by
  obtain ⟨compiled, h⟩ := Except.exists_ok
    (m := Scoreboard.program.lower .empty .empty .deterministic .sequential) (by decide +kernel)
  obtain ⟨parts, hparts, hdisjoint, -, hnames, hpresent, -, hmeans⟩ := Program.lower_globals h
  have hnames : parts.runtime.names = ["clock", "shown"] := hnames.trans (by decide +kernel)
  refine ⟨compiled, h, hpresent.mpr (by simp [hnames]), parts, hparts, hnames, ?_, ?_⟩
  · have hspeed : Scoreboard.speed ∈ Scoreboard.program.declarations := by
      simp [Program.declarations, Scoreboard.program]
    rcases hmeans Scoreboard.speed hspeed with ⟨value, hvalue, h⟩ | ⟨hmem, -⟩
    · cases hvalue
      exact h
    · exact absurd hmem (hdisjoint "speed" rfl)
  · have hshown : Scoreboard.shown ∈ Scoreboard.program.declarations := by
      simp [Program.declarations, Scoreboard.program]
    rcases hmeans Scoreboard.shown hshown with ⟨value, hvalue, -⟩ | ⟨-, h⟩
    · cases hvalue
    · exact h

end Cuesheet
