import Cuesheet.Proofs.Agreement
import Cuesheet.Proofs.Callables.Configuration
import Cuesheet.Proofs.Dataflow
import Cuesheet.Proofs.Places
import Cuesheet.Proofs.Shape

/-!
# The order of local actions

A call means the last action of its name, so in a program whose own actions have distinct names it
does not matter in which order they are written, forward calls and recursion included. The order
shows in one place, the list of actions of the configuration.

What else could depend on it does not: the actions of a program are hidden from libraries, so
neither the name under which a library's action is known nor the order in which helpers are reached
looks at them.
-/

set_option autoImplicit false

namespace Cuesheet

/-! ## Programs that differ in the order of their actions -/

/-- Whether the element is an action of the program. -/
def Element.isAction : Element → Bool
  | .action _ => true
  | .assetImport _ | .libraryImport _ | .declaration _ | .eventAction _ | .timeline _ => false

/-- The second program has the same elements, and those that are not actions in the same order. -/
structure Program.Reordered (p q : Program) : Prop where
  perm : p.elements.Perm q.elements
  others : p.elements.filter (!·.isAction) = q.elements.filter (!·.isAction)

namespace Program.Reordered

variable {p q : Program}

theorem symm (h : p.Reordered q) : q.Reordered p := ⟨h.perm.symm, h.others.symm⟩

/-- What is read off elements that are not actions is the same. -/
theorem filterMap_eq (h : p.Reordered q) {α : Type} {f : Element → Option α}
    (hf : ∀ a, f (.action a) = none) : p.elements.filterMap f = q.elements.filterMap f := by
  have hskip : ∀ elements : List Element,
      elements.filterMap f = (elements.filter (!·.isAction)).filterMap f := by
    intro elements
    rw [List.filterMap_filter]
    refine List.filterMap_congr fun e _ => ?_
    cases e with
    | action a => simpa [Element.isAction] using hf a
    | assetImport _ | libraryImport _ | declaration _ | eventAction _ | timeline _ => rfl
  rw [hskip, h.others, ← hskip]

theorem declarations_eq (h : p.Reordered q) : p.declarations = q.declarations :=
  h.filterMap_eq fun _ => rfl

theorem constants_eq (h : p.Reordered q) : p.constants = q.constants := by
  unfold Program.constants
  rw [h.declarations_eq]

theorem eventActions_eq (h : p.Reordered q) : p.eventActions = q.eventActions :=
  h.filterMap_eq fun _ => rfl

theorem timelines_eq (h : p.Reordered q) : p.timelines = q.timelines :=
  h.filterMap_eq fun _ => rfl

theorem libraryImports_eq (h : p.Reordered q) : p.libraryImports = q.libraryImports :=
  h.filterMap_eq fun _ => rfl

theorem assetImports_eq (h : p.Reordered q) : p.assetImports = q.assetImports :=
  h.filterMap_eq fun _ => rfl

theorem actions_perm (h : p.Reordered q) : p.actions.Perm q.actions := h.perm.filterMap _

theorem names_nodup (h : p.Reordered q) (hnames : (p.actions.map (·.name)).Nodup) :
    (q.actions.map (·.name)).Nodup :=
  (h.actions_perm.map _).nodup_iff.mp hnames

theorem imports_eq (h : p.Reordered q) (documents : Documents) :
    Imports.ofProgram documents p = Imports.ofProgram documents q := by
  unfold Imports.ofProgram
  rw [h.libraryImports_eq]

end Program.Reordered

/-! ## Imports and own actions -/

namespace Callables

variable {p q : Program} {documents : Documents}

/-- What a program imports and does not hide. -/
def unhidden (documents : Documents) (p : Program) : List Callable :=
  (Imports.ofProgram documents p).1.filter fun c =>
    !(Callable.definitions .program p.actions).any (·.name = c.name)

theorem program_eq (documents : Documents) (p : Program) :
    (ofProgram documents p).program =
      unhidden documents p ++ Callable.definitions .program p.actions := rfl

theorem unhidden_eq (h : p.Reordered q) : unhidden documents p = unhidden documents q := by
  unfold unhidden
  rw [h.imports_eq]
  refine List.filter_congr fun c _ => ?_
  rw [Bool.eq_iff_iff]
  have hown : ∀ actions : List Action,
      (Callable.definitions .program actions).any (·.name = c.name) = true ↔
        c.name ∈ actions.map (·.name) := by
    intro actions
    rw [← Callable.definitions_names .program]
    simp
  simp only [Bool.not_eq_true', ← Bool.not_eq_true, hown, (h.actions_perm.map _).mem_iff]

theorem libraries_eq (h : p.Reordered q) :
    (ofProgram documents p).libraries = (ofProgram documents q).libraries := by
  unfold ofProgram
  rw [h.imports_eq]

theorem find?_library_eq (h : p.Reordered q) (path name : String) :
    (ofProgram documents p).find? (.library path) name =
      (ofProgram documents q).find? (.library path) name := by
  unfold Callables.find? visibleFrom
  rw [libraries_eq h]

/-- An action of a library is looked for among the imports alone, as those of the program have
another origin. -/
theorem inProgram?_library {c : Callable} (hc : ∃ path, c.origin = .library path) :
    (ofProgram documents p).inProgram? c =
      (unhidden documents p).find? (·.sameDefinition c) := by
  have hown : (Callable.definitions .program p.actions).find? (·.sameDefinition c) = none := by
    rw [List.find?_eq_none]
    intro d hd hsame
    obtain ⟨-, horigin, -⟩ := Callable.mem_definitions_iff.mp hd
    obtain ⟨path, hpath⟩ := hc
    have hboth := (Callable.sameDefinition_iff.mp hsame).1
    rw [horigin, hpath] at hboth
    cases hboth
  rw [inProgram?, program_eq, List.find?_append, hown, Option.or_none]

theorem inProgram?_eq (h : p.Reordered q) {c : Callable} (hc : ∃ path, c.origin = .library path) :
    (ofProgram documents p).inProgram? c = (ofProgram documents q).inProgram? c := by
  rw [inProgram?_library hc, inProgram?_library hc, unhidden_eq h]

/-! ## What names mean -/

/-- An action of the program is what its name means there. -/
theorem action?_own (hnames : (p.actions.map (·.name)).Nodup) {a : Action} (ha : a ∈ p.actions) :
    (⟨ofProgram documents p, .program⟩ : Surroundings).action? a.name = some (a.name, a) := by
  obtain ⟨c, hc⟩ : ∃ c, Callable.find? a.name (Callable.definitions .program p.actions) =
      some c := by
    rw [← Option.ne_none_iff_exists', Ne, Callable.find?_eq_none_iff]
    intro hnone
    have hmem : a.name ∈ (Callable.definitions .program p.actions).map Callable.name := by
      rw [Callable.definitions_names]
      exact List.mem_map_of_mem ha
    obtain ⟨d, hd, hname⟩ := List.mem_map.mp hmem
    exact hnone d hd hname
  obtain ⟨haction, -, has⟩ := Callable.mem_definitions_iff.mp (Callable.mem_of_find? hc)
  have hname : c.name = a.name := Callable.name_of_find? hc
  have heq : c.action = a := by
    refine List.inj_on_of_nodup_map hnames (List.mem_of_getElem? haction) ha ?_
    rw [← hname, Callable.name, has]
    rfl
  have hfound : (ofProgram documents p).find? .program a.name = some c := by
    rw [Callables.find?, visibleFrom, program_eq, Callable.find?_append, hc]
    rfl
  simp [Surroundings.action?, hfound, emittedName, hname, heq]

/-- A name that no action of the program has means an import, if anything. -/
theorem action?_imported {name : String} (h : ∀ a ∈ p.actions, a.name ≠ name) :
    (⟨ofProgram documents p, .program⟩ : Surroundings).action? name =
      (Callable.find? name (unhidden documents p)).map fun c => (c.name, c.action) := by
  have hown : Callable.find? name (Callable.definitions .program p.actions) = none := by
    rw [Callable.find?_eq_none_iff, ← List.forall_mem_map (f := Callable.name) (P := (· ≠ name)),
      Callable.definitions_names, List.forall_mem_map]
    exact h
  have hfound : (ofProgram documents p).find? .program name =
      Callable.find? name (unhidden documents p) := by
    rw [Callables.find?, visibleFrom, program_eq, Callable.find?_append, hown, Option.none_or]
  rw [Surroundings.action?, hfound]
  rfl

/-- **The order of local actions changes the meaning of no call.** Their names are distinct, so a
call finds the same action wherever it stands, and what libraries see does not depend on the program
at all. -/
theorem ofProgram_agree (h : p.Reordered q) (hnames : (p.actions.map (·.name)).Nodup) :
    (ofProgram documents p).Agree (ofProgram documents q) := by
  intro origin name
  cases origin with
  | program =>
    by_cases hown : ∃ a ∈ p.actions, a.name = name
    · obtain ⟨a, ha, rfl⟩ := hown
      rw [action?_own hnames ha, action?_own (h.names_nodup hnames) (h.actions_perm.mem_iff.mp ha)]
    · have hp : ∀ a ∈ p.actions, a.name ≠ name := fun a ha hname => hown ⟨a, ha, hname⟩
      have hq : ∀ a ∈ q.actions, a.name ≠ name :=
        fun a ha => hp a (h.actions_perm.mem_iff.mpr ha)
      rw [action?_imported hp, action?_imported hq, unhidden_eq h]
  | library path =>
    unfold Surroundings.action?
    rw [find?_library_eq h]
    cases hfound : (ofProgram documents q).find? (.library path) name with
    | none => rfl
    | some c =>
      have hc := (offered_of_find? hfound).library
      simp [emittedName, inProgram?_eq h hc]

/-! ## Helpers -/

theorem helpersCalledBy_eq (h : p.Reordered q) (c : Callable) :
    (ofProgram documents p).helpersCalledBy c = (ofProgram documents q).helpersCalledBy c := by
  unfold helpersCalledBy
  cases c.origin with
  | program => rfl
  | library path =>
    refine List.filterMap_congr fun name _ => ?_
    rw [find?_library_eq h]
    cases hfound : (ofProgram documents q).find? (.library path) name with
    | none => rfl
    | some found =>
      have hlibrary := (offered_of_find? hfound).library
      simp [Option.filter, inProgram?_eq h hlibrary]

theorem reachFrom_eq (h : p.Reordered q) : ∀ (steps next : Nat) (queue : List Callable),
    (ofProgram documents p).reachFrom steps next queue =
      (ofProgram documents q).reachFrom steps next queue
  | 0, _, _ => rfl
  | steps + 1, next, queue => by
    unfold reachFrom
    split
    · rfl
    · rw [helpersCalledBy_eq h, reachFrom_eq h steps]

/-- The program's own actions call no helper: whatever they call is seen by the program. -/
theorem firstQueue_eq_unhidden (documents : Documents) (p : Program) :
    (ofProgram documents p).firstQueue = (unhidden documents p).foldl
      (fun queue c => enqueue queue ((ofProgram documents p).helpersCalledBy c)) [] := by
  rw [firstQueue, program_eq, List.foldl_append]
  generalize (unhidden documents p).foldl _ [] = queue
  have hown : ∀ c ∈ Callable.definitions .program p.actions,
      (ofProgram documents p).helpersCalledBy c = [] := by
    intro c hc
    obtain ⟨-, horigin, -⟩ := Callable.mem_definitions_iff.mp hc
    unfold helpersCalledBy
    rw [horigin]
  generalize Callable.definitions .program p.actions = own at hown
  induction own with
  | nil => rfl
  | cons c own ih =>
    rw [List.foldl_cons, hown c List.mem_cons_self]
    exact ih fun d hd => hown d (List.mem_cons_of_mem _ hd)

theorem helpers_eq (h : p.Reordered q) :
    (ofProgram documents p).helpers = (ofProgram documents q).helpers := by
  have hfirst : (ofProgram documents p).firstQueue = (ofProgram documents q).firstQueue := by
    rw [firstQueue_eq_unhidden, firstQueue_eq_unhidden, unhidden_eq h]
    simp only [helpersCalledBy_eq h]
  have hbound : (ofProgram documents p).helperBound = (ofProgram documents q).helperBound := by
    unfold helperBound
    rw [libraries_eq h]
  show (ofProgram documents p).reachFrom _ 0 (ofProgram documents p).firstQueue = _
  rw [hbound, hfirst, reachFrom_eq h]
  rfl

end Callables

/-! ## The check of the data flow -/

namespace Engine

/-- The names of the operations of every action, those of its start before those of its end. -/
def Config.halfNames {ι : Type} (c : Config ι) : List (List String × List String) :=
  ((c.initActions ++ c.actions).map fun a => (a.start.map (·.name), a.finish.map (·.name))) ++
    (c.eventActions.map fun a => (a.start.map (·.name), [])) ++
    c.timelines.flatMap fun t =>
      t.actions.map fun a => (a.start.map (·.name), a.finish.map (·.name))

theorem Config.halfNames_map {ι κ : Type} (f : ι → κ) (c : Config ι) :
    (c.map f).halfNames = c.halfNames := by
  simp [Config.halfNames, Config.map, Action.map, EventAction.map, Timeline.map, TimelineAction.map,
    Operation.map, List.flatMap_map, Function.comp_def]

theorem Config.halfNames_withIds (supply : IdSupply) (fixed : Option String) (c : Config Location) :
    (c.withIds supply fixed).1.halfNames = c.withoutIds.halfNames := by
  rw [← Config.withoutIds_withIds supply fixed c, Config.withoutIds, Config.halfNames_map]

/-- Both halves find what they read; the names of the operations decide. -/
def NamesSupplied (seedEnd : Bool) (half : List String × List String) : Prop :=
  (∀ i, Dataflow.Supplied [] half.1 i) ∧
    ∀ i, Dataflow.Supplied (if seedEnd then Dataflow.outputs half.1 else []) half.2 i

theorem checkOperations_of_supplied {operations : List (Operation String)}
    {available : Dataflow.Available}
    (h : ∀ i, Dataflow.Supplied available (operations.map (·.name)) i) (map : SourceMap)
    (owner : String) : ∃ behind, checkOperations map owner operations available = .ok behind := by
  have hpasses := Dataflow.run_failure_eq_none_iff.mpr h
  refine ⟨(Dataflow.run (operations.map (·.name)) available).available, ?_⟩
  simp only [checkOperations, hpasses]

theorem checkHalves_of_supplied {seedEnd : Bool} {start finish : List (Operation String)}
    (h : HalvesSupplied seedEnd start finish) (map : SourceMap) (owner : String) :
    checkHalves map seedEnd owner start finish = .ok () := by
  obtain ⟨available, hstart⟩ := checkOperations_of_supplied h.1 map owner
  have hbehind := checkOperations_ok hstart
  have hfinish : ∀ i, Dataflow.Supplied (if seedEnd then available else [])
      (finish.map (·.name)) i := by
    refine fun i => (h.2 i).mono fun entry hentry => ?_
    cases seedEnd with
    | true => simpa using (hbehind.available entry).mpr (by simpa using hentry)
    | false => exact hentry
  obtain ⟨final, hfinal⟩ := checkOperations_of_supplied hfinish map owner
  rw [checkHalves, hstart, Except.ok_bind, hfinal]
  rfl

/-- The check passes exactly if all lists find what they read, whatever the source map says. -/
theorem checkAll_eq_ok_iff {map : SourceMap} {seedEnd : Bool} :
    ∀ {lists : List (String × List (Operation String) × List (Operation String))},
      checkAll map seedEnd lists = .ok () ↔ ∀ half ∈ lists, HalvesSupplied seedEnd half.2.1 half.2.2
  | [] => by simp [checkAll]
  | (owner, start, finish) :: rest => by
    refine ⟨checkAll_ok, fun h => ?_⟩
    obtain ⟨hfirst, hrest⟩ := List.forall_mem_cons.mp h
    rw [checkAll, checkHalves_of_supplied hfirst, Except.ok_bind]
    exact checkAll_eq_ok_iff.mpr hrest

theorem checkAll_halves_iff {map : SourceMap} {seedEnd : Bool} {c : Config String} :
    checkAll map seedEnd c.halves = .ok () ↔ ∀ half ∈ c.halfNames, NamesSupplied seedEnd half := by
  have hnames : c.halfNames =
      c.halves.map fun half => (half.2.1.map (·.name), half.2.2.map (·.name)) := by
    simp [Config.halfNames, Config.halves, List.map_flatMap, Function.comp_def]
  rw [checkAll_eq_ok_iff, hnames, List.forall_mem_map]
  rfl

end Engine

/-- A draft can be finished exactly if its data flow is in order, whatever the ids. -/
theorem Program.lower_iff_of_draft {p : Program} {documents : Documents} {assets : Assets}
    {settings : Settings} {draft : Draft} (h : p.draft documents assets settings = .ok draft)
    (supply : Engine.IdSupply) {compiled : Compiled} :
    p.lower documents assets settings supply = .ok compiled ↔
      (∀ half ∈ draft.config.withoutIds.halfNames, Engine.NamesSupplied settings.seedEnd half) ∧
        compiled = draft.compiled supply settings.configId := by
  rw [Program.lower_of_draft h, ← Engine.Config.halfNames_withIds supply settings.configId]
  show (Engine.checkAll _ _ (draft.config.withIds supply settings.configId).1.halves).map _ = _ ↔ _
  generalize hmap : (draft.compiled supply settings.configId).sourceMap = map
  rw [← @Engine.checkAll_halves_iff map]
  cases Engine.checkAll map settings.seedEnd
      (draft.config.withIds supply settings.configId).1.halves with
  | error e => simp [Except.map]
  | ok _ => simp [Except.map, eq_comm]

/-! ## Drafts of reordered programs -/

/-- The entry of an action in a configuration without its ids; one with no operations if the action
cannot be lowered. -/
def Callable.entry (callables : Callables) (globals : Globals) (name : String) (c : Callable) :
    Engine.Action Unit :=
  match c.lower callables globals name with
  | .ok a => a.map fun _ => ()
  | .error _ => ⟨(), name, [], []⟩

/-- The entry of an action of the program itself. -/
def Action.entry (callables : Callables) (globals : Globals) (a : Action) : Engine.Action Unit :=
  Callable.entry callables globals a.name ⟨a, .program, 0, none⟩

theorem Callable.entry_of_lower {callables : Callables} {globals : Globals} {name : String}
    {c : Callable} {a : Engine.Action Location} (h : c.lower callables globals name = .ok a) :
    c.entry callables globals name = a.map fun _ => () := by
  rw [entry, h]

theorem Action.entry_name (callables : Callables) (globals : Globals) (a : Action) :
    (a.entry callables globals).name = a.name := by
  unfold Action.entry Callable.entry
  split
  · rename_i lowered hlowered
    obtain ⟨start, -, h⟩ := Except.bind_ok hlowered
    obtain ⟨finish, -, h⟩ := Except.bind_ok h
    cases h
    rfl
  · rfl

/-- Where a definition stands in its document does not show in its entry. -/
theorem Callable.map_entry_definitions (callables : Callables) (globals : Globals)
    (actions : List Action) :
    (definitions .program actions).map (fun c => c.entry callables globals c.name) =
      actions.map (Action.entry callables globals) := by
  refine List.ext_getElem? fun i => ?_
  rw [List.getElem?_map, List.getElem?_map, definitions_getElem?, Option.map_map]
  rfl

theorem Callables.Agree.entry_eq {callables others : Callables} (h : callables.Agree others)
    (globals : Globals) (name : String) (c : Callable) :
    c.entry callables globals name = c.entry others globals name := by
  have hagree := h.lower_callable globals name c
  unfold Callable.entry
  cases hlower : c.lower callables globals name with
  | ok a => rw [hagree.ok hlower]
  | error e =>
    cases hother : c.lower others globals name with
    | ok a =>
      rw [Lowered.Agree, hlower, hother] at hagree
      cases hagree
    | error e' => rfl

namespace Program.Reordered

variable {p q : Program} {documents : Documents} {settings : Settings}

/-- If all entries of a list can be lowered, so can the list. -/
theorem exists_forall₂ {α β : Type} {R : α → β → Prop} : ∀ {xs : List α},
    (∀ x ∈ xs, ∃ y, R x y) → ∃ ys, List.Forall₂ R xs ys
  | [], _ => ⟨[], .nil⟩
  | x :: xs, h => by
    obtain ⟨y, hy⟩ := h x List.mem_cons_self
    obtain ⟨ys, hys⟩ := exists_forall₂ fun x hx => h x (List.mem_cons_of_mem _ hx)
    exact ⟨y :: ys, .cons hy hys⟩

/-- What is an entry for the one program is an entry for the other, of the same definition but
perhaps at another position. -/
theorem exists_entry (h : p.Reordered q) {entry : String × Callable}
    (hentry : entry ∈ (Callables.ofProgram documents q).entries) :
    ∃ same ∈ (Callables.ofProgram documents p).entries, same.1 = entry.1 ∧
      same.2.origin = entry.2.origin ∧ same.2.action = entry.2.action := by
  unfold Callables.entries at hentry ⊢
  rw [Callables.program_eq, List.map_append, List.mem_append, List.mem_append] at hentry
  rw [Callables.program_eq, List.map_append, Callables.unhidden_eq h, Callables.helpers_eq h]
  rcases hentry with (himported | hown) | hhelper
  · exact ⟨entry, by simp [himported], rfl, rfl, rfl⟩
  · -- An own action stands at another position, under the same name.
    obtain ⟨c, hc, rfl⟩ := List.mem_map.mp hown
    obtain ⟨haction, horigin, has⟩ := Callable.mem_definitions_iff.mp hc
    obtain ⟨i, hi⟩ := List.mem_iff_getElem?.mp
      (h.actions_perm.mem_iff.mpr (List.mem_of_getElem? haction))
    refine ⟨(c.name, ⟨c.action, .program, i, none⟩), ?_, rfl, horigin.symm, rfl⟩
    refine List.mem_append_left _ (List.mem_append_right _ (List.mem_map.mpr
      ⟨⟨c.action, .program, i, none⟩, Callable.mem_definitions_iff.mpr ⟨hi, rfl, rfl⟩, ?_⟩))
    rw [Callable.name, Callable.name, has]
  · exact ⟨entry, List.mem_append_right _ hhelper, rfl, rfl, rfl⟩

/-- The parts of the one program are those of the other, but for the list of actions. -/
theorem parts (h : p.Reordered q) (hnames : (p.actions.map (·.name)).Nodup) {parts : Parts}
    (hparts : parts.Of p documents settings) :
    ∃ actions, ({ parts with actions } : Parts).Of q documents settings := by
  have hagree : (Callables.ofProgram documents p).Agree (.ofProgram documents q) :=
    Callables.ofProgram_agree h hnames
  have hconstants : q.constants = p.constants := h.symm.constants_eq
  -- Every entry of the second program is one of the first, which was lowered, and agreeing
  -- callables lower it to the same.
  have hentries : ∀ entry ∈ (Callables.ofProgram documents q).entries, ∃ a,
      entry.2.lower (.ofProgram documents q) ⟨q.constants, parts.runtime.names⟩ entry.1 =
        .ok a := by
    intro entry hentry
    obtain ⟨same, hsame, hname, horigin, haction⟩ := h.exists_entry hentry
    obtain ⟨a, -, ha⟩ := Lowered.exists_of_forall₂ hparts.actions hsame
    rw [Callable.lower_of_same horigin haction, hname] at ha
    rw [hconstants]
    exact ⟨a, (hagree.lower_callable _ _ _).ok ha⟩
  obtain ⟨actions, hactions⟩ := exists_forall₂ hentries
  refine ⟨actions, ?_, hactions, ?_, ?_, ?_⟩
  · rw [hconstants, ← h.declarations_eq]
    exact hparts.runtime
  · rw [hconstants, ← h.eventActions_eq]
    exact hparts.eventActions.imp fun e a => (hagree.lower_eventAction _ e).ok
  · rw [← h.timelines_eq]
    exact hparts.some_timeline
  · rw [hconstants, ← h.timelines_eq]
    exact hparts.timelines.imp fun t lowered => (hagree.lower_timeline _ _ t).ok

end Program.Reordered

/-! ## The two configurations -/

/-- The actions of a draft without their ids: imports, the program's own, then helpers. Any
callables that agree with those of the program give the same entries. -/
theorem Program.Parts.Of.entries_eq {parts : Program.Parts} {p : Program} {documents : Documents}
    {settings : Settings} {callables : Callables} {globals : Globals}
    (h : parts.Of p documents settings) (hagree : (Callables.ofProgram documents p).Agree callables)
    (hglobals : ⟨p.constants, parts.runtime.names⟩ = globals) :
    parts.actions.map (Engine.Action.map fun _ => ()) =
      (Callables.unhidden documents p).map (fun c => c.entry callables globals c.name) ++
        p.actions.map (Action.entry callables globals) ++
        (Callables.ofProgram documents p).helpers.map fun c =>
          c.entry callables globals c.qualifiedName := by
  subst hglobals
  have hentries : parts.actions.map (Engine.Action.map fun _ => ()) =
      (Callables.ofProgram documents p).entries.map fun entry =>
        entry.2.entry callables ⟨p.constants, parts.runtime.names⟩ entry.1 := by
    rw [eq_comm, ← List.forall₂_eq_eq_eq, List.forall₂_map_left_iff, List.forall₂_map_right_iff]
    refine h.actions.imp fun entry a ha => ?_
    rw [← hagree.entry_eq]
    exact Callable.entry_of_lower ha
  rw [hentries, Callables.entries, Callables.program_eq, ← Callable.map_entry_definitions]
  simp only [List.map_append, List.map_map, Function.comp_def]

namespace Program

/-- The second of two configurations without ids differs from the first in one thing: where the
first lists the entries of the actions of `p`, in their order, it lists those of `q`, in theirs. -/
def SameButOrder (p q : Program) (c d : Engine.Config Unit) : Prop :=
  ∃ (imported helpers : List (Engine.Action Unit)) (entry : Action → Engine.Action Unit),
    (∀ a ∈ p.actions, (entry a).name = a.name) ∧
    c.actions = imported ++ p.actions.map entry ++ helpers ∧
    d = { c with actions := imported ++ q.actions.map entry ++ helpers }

variable {p q : Program} {documents : Documents} {assets : Assets} {settings : Settings}

theorem SameButOrder.mem_halfNames {c d : Engine.Config Unit} (h : p.SameButOrder q c d)
    (hperm : p.actions.Perm q.actions) {half : List String × List String}
    (hhalf : half ∈ d.halfNames) : half ∈ c.halfNames := by
  obtain ⟨imported, helpers, entry, -, hactions, rfl⟩ := h
  simp only [Engine.Config.halfNames, hactions, List.map_append, List.mem_append, List.mem_map,
    hperm.mem_iff] at hhalf ⊢
  exact hhalf

/-- **A draft of the one program gives a draft of the other.** Every part is lowered alike, and the
list of actions has the same entries in another order. -/
theorem Reordered.draft (h : p.Reordered q) (hnames : (p.actions.map (·.name)).Nodup)
    {draft : Draft} (hdraft : p.draft documents assets settings = .ok draft) :
    ∃ draft', q.draft documents assets settings = .ok draft' ∧
      p.SameButOrder q draft.config.withoutIds draft'.config.withoutIds := by
  obtain ⟨parts, hparts, rfl⟩ := draft_eq_ok_iff.mp hdraft
  obtain ⟨actions, hactions⟩ := h.parts hnames hparts
  refine ⟨_, draft_eq_ok_iff.mpr ⟨_, hactions, rfl⟩, ?_⟩
  have hagree : (Callables.ofProgram documents q).Agree (.ofProgram documents p) :=
    Callables.ofProgram_agree h.symm (h.names_nodup hnames)
  have hq := hactions.entries_eq hagree (by rw [← h.constants_eq])
  rw [← Callables.unhidden_eq h, ← Callables.helpers_eq h] at hq
  refine ⟨_, _, _, fun a _ => Action.entry_name _ _ a,
    hparts.entries_eq (fun _ _ => rfl) rfl, ?_⟩
  rw [← hq]
  -- Nothing else of a draft looks at the actions.
  simp only [Parts.draft, Engine.Config.withoutIds, Engine.Config.map, Assets.styleSheets,
    h.assetImports_eq]

theorem Draft.withoutIds_compiled (draft : Draft) (supply : Engine.IdSupply)
    (fixed : Option String) :
    (draft.compiled supply fixed).config.withoutIds = draft.config.withoutIds :=
  Engine.Config.withoutIds_withIds supply fixed draft.config

/-- What the one program is lowered to gives what the other is lowered to. -/
theorem Reordered.lower (h : p.Reordered q) (hnames : (p.actions.map (·.name)).Nodup)
    {supply : Engine.IdSupply} {c : Compiled}
    (hc : p.lower documents assets settings supply = .ok c) (supply' : Engine.IdSupply) :
    ∃ d, q.lower documents assets settings supply' = .ok d ∧
      p.SameButOrder q c.config.withoutIds d.config.withoutIds := by
  obtain ⟨draft, hdraft, -⟩ := Program.lower_ok hc
  obtain ⟨hsupplied, rfl⟩ := (lower_iff_of_draft hdraft supply).mp hc
  obtain ⟨draft', hdraft', hsame⟩ := h.draft hnames hdraft
  refine ⟨draft'.compiled supply' settings.configId, ?_, ?_⟩
  · refine (lower_iff_of_draft hdraft' supply').mpr ⟨fun half hhalf => ?_, rfl⟩
    exact hsupplied half (hsame.mem_halfNames h.actions_perm hhalf)
  · rw [draft.withoutIds_compiled, draft'.withoutIds_compiled]
    exact hsame

/-- **The order of local actions does not matter.** For a program whose own actions have distinct
names and any other order of them, the one can be lowered exactly if the other can, whatever ids are
used. The two configurations without their ids differ in the order of the entries of those actions
and in nothing else. -/
theorem lower_reordered (documents : Documents) (assets : Assets) (settings : Settings)
    (supply supply' : Engine.IdSupply) (hnames : (p.actions.map (·.name)).Nodup)
    (h : p.Reordered q) :
    ((p.lower documents assets settings supply).toBool = true ↔
      (q.lower documents assets settings supply').toBool = true) ∧
    ∀ c d, p.lower documents assets settings supply = .ok c →
      q.lower documents assets settings supply' = .ok d →
      p.SameButOrder q c.config.withoutIds d.config.withoutIds := by
  refine ⟨⟨fun haccepted => ?_, fun haccepted => ?_⟩, ?_⟩
  · obtain ⟨c, hc⟩ := Except.exists_ok haccepted
    obtain ⟨d, hd, -⟩ := h.lower hnames hc supply'
    rw [hd]
    rfl
  · obtain ⟨d, hd⟩ := Except.exists_ok haccepted
    obtain ⟨c, hc, -⟩ := h.symm.lower (h.names_nodup hnames) hd supply
    rw [hc]
    rfl
  · -- The second program has one result, so it is the one that the first program leads to.
    intro c d hc hd
    obtain ⟨d', hd', hsame⟩ := h.lower hnames hc supply'
    rw [hd] at hd'
    cases hd'
    exact hsame

end Program

namespace Relay

/-- Calls an action that is written behind it. -/
def opening : Element := .action (Sample.action "open" [.call (Sample.call "close" 3)] 2)

/-- Calls an import and the action that calls it. -/
def closing : Element := .action (Sample.action "close"
  [.call (Sample.call "appear" 5), .call (Sample.call "open" 6)] 4)

def others : List Element := [
  .libraryImport ⟨"./lib/effects.cue", [⟨"fade", some "appear", .onLine 7⟩], .onLine 7⟩,
  .timeline ⟨"main", "#stage", .raf, none, [
    .timed (.literal 0 .s (.onLine 9)) (.literal 2 .s (.onLine 9))
      (.named (Sample.call "open" 9)) (.onLine 9)], .onLine 8⟩]

def program : Program := ⟨opening :: others ++ [closing], .onLine 1⟩

def reordered : Program := ⟨closing :: opening :: others, .onLine 1⟩

end Relay

/-- Two actions that call each other can stand in either order, and a helper of a library behind
them stays where it is. -/
theorem Program.lower_reordered_relay :
    Relay.program.Reordered Relay.reordered ∧
      ∃ c d, Relay.program.lower Sample.documents .empty .deterministic .sequential = .ok c ∧
        Relay.reordered.lower Sample.documents .empty .deterministic .sequential = .ok d ∧
        c.config.actions.map (·.name) =
          ["appear", "open", "close", "lib/effects.cue#helper", "lib/net.cue#ping"] ∧
        d.config.actions.map (·.name) =
          ["appear", "close", "open", "lib/effects.cue#helper", "lib/net.cue#ping"] ∧
        Relay.program.SameButOrder Relay.reordered c.config.withoutIds d.config.withoutIds := by
  have h : Relay.program.Reordered Relay.reordered := ⟨List.perm_append_comm, rfl⟩
  obtain ⟨c, hc, hcnames⟩ := Except.exists_ok_of_map (m := Relay.program.lower Sample.documents
    .empty .deterministic .sequential) (f := fun c => c.config.actions.map (·.name))
    (b := ["appear", "open", "close", "lib/effects.cue#helper", "lib/net.cue#ping"])
    (by decide +kernel)
  obtain ⟨d, hd, hdnames⟩ := Except.exists_ok_of_map (m := Relay.reordered.lower Sample.documents
    .empty .deterministic .sequential) (f := fun c => c.config.actions.map (·.name))
    (b := ["appear", "close", "open", "lib/effects.cue#helper", "lib/net.cue#ping"])
    (by decide +kernel)
  refine ⟨h, c, d, hc, hd, hcnames, hdnames, ?_⟩
  exact (Program.lower_reordered _ _ _ _ _ (by decide) h).2 c d hc hd

end Cuesheet
