import Cuesheet.Proofs.Imports.Resolution
import Cuesheet.Proofs.Separator

/-!
# Which definition a callable is

However an action reaches a caller, by its own name, under the name that an import gives it or
through the imports of several libraries, it stays one definition of one document. A callable is the
definition its position says (`Genuine`), and whatever a call finds is the **last** definition of
its name in its own document (`Leading`), so that two callables with one qualified name are the same
definition. Both pass from list to list when imports are resolved.
-/

set_option autoImplicit false

namespace Cuesheet

namespace Callable

/-! ## The last action of a name -/

/-- **A call finds the last callable of its name.** The list is searched from its end, and so this
says what stands before and behind the one that is found. -/
theorem find?_eq_some_iff {name : String} {callables : List Callable} {c : Callable} :
    find? name callables = some c ↔ ∃ before after, callables = before ++ c :: after ∧
      c.name = name ∧ ∀ d ∈ after, d.name ≠ name := by
  rw [find?, List.find?_eq_some_iff_append]
  constructor
  · rintro ⟨hname, after, before, hlist, hafter⟩
    refine ⟨before.reverse, after.reverse, ?_, by simpa using hname, fun d hd => ?_⟩
    · have hreverse := congrArg List.reverse hlist
      simpa using hreverse
    · simpa using hafter d (by simpa using hd)
  · rintro ⟨before, after, rfl, hname, hafter⟩
    refine ⟨by simpa using hname, after.reverse, before.reverse, by simp, fun d hd => ?_⟩
    simpa using hafter d (by simpa using hd)

theorem find?_eq_none_iff {name : String} {callables : List Callable} :
    find? name callables = none ↔ ∀ c ∈ callables, c.name ≠ name := by
  simp [find?, List.find?_eq_none]

theorem mem_of_find? {name : String} {callables : List Callable} {c : Callable}
    (h : find? name callables = some c) : c ∈ callables := by
  obtain ⟨before, after, rfl, -, -⟩ := find?_eq_some_iff.mp h
  simp

theorem name_of_find? {name : String} {callables : List Callable} {c : Callable}
    (h : find? name callables = some c) : c.name = name := by
  obtain ⟨before, after, -, hname, -⟩ := find?_eq_some_iff.mp h
  exact hname

/-- Later lists hide earlier ones. Imports come first and the own definitions of a document behind
them. -/
theorem find?_append (name : String) (first second : List Callable) :
    find? name (first ++ second) = (find? name second).or (find? name first) := by
  simp [find?, List.reverse_append, List.find?_append]

/-! ## Definitions of a document -/

theorem definitionsFrom_getElem? (origin : Origin) : ∀ (actions : List Action) (start i : Nat),
    (definitionsFrom origin start actions)[i]? =
      actions[i]?.map fun a => ⟨a, origin, start + i, none⟩
  | [], _, _ => rfl
  | a :: rest, start, 0 => rfl
  | a :: rest, start, i + 1 => by
    rw [definitionsFrom, List.getElem?_cons_succ, List.getElem?_cons_succ,
      definitionsFrom_getElem? origin rest (start + 1) i]
    simp [Nat.add_assoc, Nat.add_comm 1 i]

theorem definitions_getElem? (origin : Origin) (actions : List Action) (i : Nat) :
    (definitions origin actions)[i]? = actions[i]?.map fun a => ⟨a, origin, i, none⟩ := by
  rw [definitions, definitionsFrom_getElem?]
  simp

/-- The definitions of a document are its actions, each at its own position and under its own
name. -/
theorem mem_definitions_iff {origin : Origin} {actions : List Action} {c : Callable} :
    c ∈ definitions origin actions ↔
      actions[c.index]? = some c.action ∧ c.origin = origin ∧ c.as = none := by
  rw [List.mem_iff_getElem?]
  constructor
  · rintro ⟨i, hi⟩
    rw [definitions_getElem?, Option.map_eq_some_iff] at hi
    obtain ⟨a, ha, rfl⟩ := hi
    exact ⟨ha, rfl, rfl⟩
  · rintro ⟨haction, rfl, has⟩
    refine ⟨c.index, ?_⟩
    rw [definitions_getElem?, haction, Option.map_some, ← has]

theorem definitions_names (origin : Origin) (actions : List Action) :
    (definitions origin actions).map name = actions.map (·.name) := by
  refine List.ext_getElem? fun i => ?_
  rw [List.getElem?_map, List.getElem?_map, definitions_getElem?, Option.map_map]
  rfl

/-- The definition found by a name is the last one with it. Positions in the list of callables are
positions in the document, so what stands behind it in the one has a higher index in the other. -/
theorem last_of_find?_definitions {origin : Origin} {actions : List Action} {name : String}
    {c : Callable} (h : find? name (definitions origin actions) = some c) :
    ∀ j a, c.index < j → actions[j]? = some a → a.name ≠ c.action.name := by
  obtain ⟨before, after, hlist, hname, hafter⟩ := find?_eq_some_iff.mp h
  obtain ⟨-, -, has⟩ := mem_definitions_iff.mp (mem_of_find? h)
  have hindex : c.index = before.length := by
    have hat := definitions_getElem? origin actions before.length
    rw [hlist, List.getElem?_append_right (Nat.le_refl _), Nat.sub_self,
      List.getElem?_cons_zero, eq_comm, Option.map_eq_some_iff] at hat
    obtain ⟨a, -, rfl⟩ := hat
    rfl
  have hcname : c.action.name = name := by rw [← hname, Callable.name, has]; rfl
  intro j a hj ha
  have hat := definitions_getElem? origin actions j
  rw [ha, hlist, List.getElem?_append_right (by omega), List.getElem?_cons,
    if_neg (by omega)] at hat
  rw [hcname]
  exact hafter _ (List.mem_of_getElem? hat)

end Callable

/-- An import picks single actions out of what a library offers, each perhaps under a new name. What
the library does not offer is left out. -/
theorem Imports.mem_select_iff {wanted : List ActionImport} {offered : List Callable}
    {c : Callable} : c ∈ Imports.select wanted offered ↔ ∃ entry ∈ wanted, ∃ found,
      Callable.find? entry.action offered = some found ∧ c = found.renamed entry.as := by
  simp only [Imports.select, List.mem_filterMap, Option.map_eq_some_iff]
  constructor
  · rintro ⟨entry, hentry, found, hfound, rfl⟩
    exact ⟨entry, hentry, found, hfound, rfl⟩
  · rintro ⟨entry, hentry, found, hfound, rfl⟩
    exact ⟨entry, hentry, found, hfound, rfl⟩

/-! ## Genuine and leading callables -/

/-- The action at a position of a document. -/
def Program.definition? (p : Program) (documents : Documents) : Origin → Nat → Option Action
  | .program, index => p.actions[index]?
  | .library path, index => (documents.resolve? path).bind (·.actions[index]?)

namespace Callable

variable {p : Program} {documents : Documents}

/-- The callable holds the definition that its document has at its position. -/
def Genuine (p : Program) (documents : Documents) (c : Callable) : Prop :=
  p.definition? documents c.origin c.index = some c.action

/-- No later definition of its document has its name. -/
def Leading (p : Program) (documents : Documents) (c : Callable) : Prop :=
  ∀ j a, c.index < j → p.definition? documents c.origin j = some a → a.name ≠ c.action.name

theorem Genuine.action_eq {c d : Callable} (hc : c.Genuine p documents)
    (hd : d.Genuine p documents) (horigin : c.origin = d.origin) (hindex : c.index = d.index) :
    c.action = d.action := by
  rw [Genuine, horigin, hindex, hd] at hc
  exact (Option.some.inj hc).symm

/-- A document has one leading definition of a name. -/
theorem Leading.index_eq {c d : Callable} (hc : c.Genuine p documents) (hc' : c.Leading p documents)
    (hd : d.Genuine p documents) (hd' : d.Leading p documents) (horigin : c.origin = d.origin)
    (hname : c.action.name = d.action.name) : c.index = d.index := by
  rcases Nat.lt_trichotomy c.index d.index with hlt | heq | hgt
  · exact absurd hname.symm (hc' d.index d.action hlt (horigin ▸ hd))
  · exact heq
  · exact absurd hname (hd' c.index c.action hgt (horigin ▸ hc))

theorem sameDefinition_iff {c d : Callable} :
    c.sameDefinition d = true ↔ c.origin = d.origin ∧ c.index = d.index := by
  simp [sameDefinition]

/-- A callable of a library, one that a call can find there. -/
structure Offered (p : Program) (documents : Documents) (c : Callable) : Prop where
  genuine : c.Genuine p documents
  leading : c.Leading p documents
  library : ∃ path, c.origin = .library path

theorem Offered.renamed {c : Callable} (h : c.Offered p documents) (as : Option String) :
    (c.renamed as).Offered p documents :=
  ⟨h.genuine, h.leading, h.library⟩

end Callable

/-- Whatever a call finds in the list is the last definition of its name in some library. -/
def Imports.Sound (p : Program) (documents : Documents) (callables : List Callable) : Prop :=
  ∀ name c, Callable.find? name callables = some c → c.Offered p documents

/-- The definitions of a library are found as the last ones of their names. -/
theorem Library.definitions_sound {p : Program} {documents : Documents} {path : String}
    {library : Library} (h : documents.resolve? path = some library) :
    Imports.Sound p documents (library.definitions path) := by
  intro name c hc
  obtain ⟨haction, horigin, -⟩ := Callable.mem_definitions_iff.mp (Callable.mem_of_find? hc)
  have hdefinition : ∀ j, p.definition? documents c.origin j = library.actions[j]? := by
    intro j
    rw [horigin, Program.definition?, h]
    rfl
  refine ⟨(hdefinition c.index).trans haction, fun j a hj ha => ?_, path, horigin⟩
  exact Callable.last_of_find?_definitions hc j a hj ((hdefinition j).symm.trans ha)

namespace Imports

variable {p : Program} {documents : Documents}

/-- Picking and renaming keep the definition. A new name hides nothing in the document that the
action comes from. -/
theorem Sound.offered_of_mem_select {callables : List Callable} (h : Sound p documents callables)
    {wanted : List ActionImport} {c : Callable} (hc : c ∈ select wanted callables) :
    c.Offered p documents := by
  obtain ⟨entry, -, found, hfound, rfl⟩ := mem_select_iff.mp hc
  exact (h _ _ hfound).renamed entry.as

theorem sound_nil : Sound p documents [] :=
  fun _ _ hfind => absurd hfind (by simp [Callable.find?])

/-- What a library lists is sound if what it imports is. An own definition is found before an
imported one, and both are the last of their name where they are defined. -/
theorem sound_hereditary : Hereditary documents fun _ => Sound p documents := by
  intro finished chain path callables hfinished hlisted
  obtain ⟨library, hlibrary, -, rfl⟩ := hlisted.made
  intro name c hc
  rw [Callable.find?_append, Option.or_eq_some_iff] at hc
  rcases hc with hown | ⟨-, himported⟩
  · exact Library.definitions_sound hlibrary name c hown
  · obtain ⟨i, -, hselected⟩ := List.mem_flatMap.mp (Callable.mem_of_find? himported)
    exact Sound.offered_of_mem_select
      (shown_holds sound_nil (fun _ _ => Library.definitions_sound) hfinished _ _) hselected

theorem mem_of_mem_distinct {c : Callable} : ∀ (callables kept : List Callable),
    c ∈ distinct kept callables → c ∈ kept ∨ c ∈ callables
  | [], _, h => .inl h
  | d :: rest, kept, h => by
    rw [distinct] at h
    split at h
    · exact (mem_of_mem_distinct rest kept h).imp_right (List.mem_cons_of_mem _)
    · rcases mem_of_mem_distinct rest _ h with hkept | hrest
      · rcases List.mem_append.mp hkept with hkept | hd
        · exact .inl hkept
        · rw [List.mem_singleton.mp hd]
          exact .inr List.mem_cons_self
      · exact .inr (List.mem_cons_of_mem _ hrest)

theorem mem_ofProgram {c : Callable} (h : c ∈ (ofProgram documents p).1) :
    ∃ i ∈ p.libraryImports, c ∈ select i.actions
      ((Dict.get? (ofProgram documents p).2 (Path.resolve "" i.path)).getD []) := by
  rw [ofProgram_imports] at h
  exact List.mem_flatMap.mp ((mem_of_mem_distinct _ _ h).resolve_left (by simp))

end Imports

namespace Callables

variable {p : Program} {documents : Documents}

/-- What passes from list to list when imports are resolved holds of what a library can call. -/
theorem visibleFrom_induct {I : String → List Callable → Prop} (hnil : ∀ path, I path [])
    (hI : Imports.Hereditary documents I) (path : String) :
    I path ((ofProgram documents p).visibleFrom (.library path)) := by
  rw [visibleFrom]
  cases hget : Dict.get? (ofProgram documents p).libraries path with
  | none => exact hnil path
  | some callables => exact (Imports.ofProgram_resolved documents p).induct I hI path _ hget

/-- A program sees what it imports and its own definitions. An imported action is out of sight if
the program defines one of the same name. -/
theorem mem_program_iff {c : Callable} : c ∈ (ofProgram documents p).program ↔
    (c ∈ (Imports.ofProgram documents p).1 ∧ ∀ a ∈ p.actions, a.name ≠ c.name) ∨
      c ∈ Callable.definitions .program p.actions := by
  have hnames : (∀ d ∈ Callable.definitions .program p.actions, d.name ≠ c.name) ↔
      ∀ a ∈ p.actions, a.name ≠ c.name := by
    have hmap := Callable.definitions_names .program p.actions
    rw [← List.forall_mem_map (f := Callable.name) (P := (· ≠ c.name)), hmap,
      List.forall_mem_map]
  rw [ofProgram, List.mem_append, List.mem_filter, ← hnames]
  simp

theorem visibleFrom_sound (path : String) :
    Imports.Sound p documents ((ofProgram documents p).visibleFrom (.library path)) :=
  visibleFrom_induct (fun _ => Imports.sound_nil) Imports.sound_hereditary path

theorem offered_of_find? {path name : String} {c : Callable}
    (h : (ofProgram documents p).find? (.library path) name = some c) :
    c.Offered p documents :=
  visibleFrom_sound path name c h

theorem offered_of_imported {c : Callable} (h : c ∈ (Imports.ofProgram documents p).1) :
    c.Offered p documents := by
  obtain ⟨i, -, hselected⟩ := Imports.mem_ofProgram h
  exact Imports.Sound.offered_of_mem_select (visibleFrom_sound (Path.resolve "" i.path)) hselected

/-- All that a program sees is genuine. Its own definitions need not be leading: of two with one
name both are listed, and a call finds the second. -/
theorem genuine_of_mem_program {c : Callable} (h : c ∈ (ofProgram documents p).program) :
    c.Genuine p documents := by
  rcases mem_program_iff.mp h with ⟨himported, -⟩ | hown
  · exact (offered_of_imported himported).genuine
  · obtain ⟨haction, horigin, -⟩ := Callable.mem_definitions_iff.mp hown
    rw [Callable.Genuine, horigin]
    exact haction

end Callables

end Cuesheet
