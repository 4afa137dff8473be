import Cuesheet.Proofs.Imports.Order

/-!
# Imports without a cache

What a library offers can be said in one sentence: whatever its import statements bring in, one
after another, and then its own definitions. Read as a recursive definition this needs neither a
chain nor a cache, but it only ends where no library leads back to itself. `Plain.actions` is that
definition, by recursion along the imports, and nothing in it comes from the resolver.

On such documents the resolver computes it (`Imports.Resolved.eq_actions`), whatever is shared,
repeated or renamed on the way and in whatever order libraries are visited. Where imports form a
cycle nothing is asserted here.
-/

set_option autoImplicit false

namespace Cuesheet

namespace Documents

variable {documents : Documents}

/-! ## Imports that never lead back -/

/-- No library imports itself, directly or through others. -/
def Acyclic (documents : Documents) : Prop :=
  ∀ path, ¬ Relation.TransGen documents.Edge path path

theorem Acyclic.not_reaches (h : documents.Acyclic) {path target : String}
    (hedge : documents.Edge path target) : ¬ documents.Reaches target path := by
  intro hback
  exact h path (Relation.TransGen.head' hedge hback)

/-- There are finitely many documents, so imports without a cycle come to an end. -/
theorem Acyclic.accessible (h : documents.Acyclic) {path : String}
    (hpath : Path.normalise path = path) : Acc (flip documents.Edge) path := by
  -- Each import goes to a library with fewer documents behind it.
  induction hn : Imports.reach documents path using Nat.strongRecOn generalizing path with
  | ind n ih =>
    constructor
    intro target hedge
    have hknown : path ∈ documents.paths := by
      obtain ⟨library, i, hlibrary, -⟩ := id hedge
      exact mem_paths hpath hlibrary
    have hlt := Imports.reach_lt hknown hedge (h.not_reaches hedge)
    exact ih _ (hn ▸ hlt) (Edge.normalise_eq hedge) rfl

/-- The imports are well-founded, also from paths that are not normalised, whose imports are. -/
theorem Acyclic.wellFounded (h : documents.Acyclic) : WellFounded (flip documents.Edge) := by
  constructor
  intro path
  constructor
  intro target hedge
  exact h.accessible (Edge.normalise_eq hedge)

/-- A number for every path that each import makes smaller. Only the documents themselves have to
be looked at: other spellings of their paths are never imported. -/
theorem Acyclic.of_rank (rank : String → Nat)
    (hrank : ∀ entry ∈ documents.entries, ∀ i ∈ entry.2.imports,
      rank (Path.resolve entry.1 i.path) < rank entry.1) : documents.Acyclic := by
  have hstep : ∀ {path target}, Path.normalise path = path → documents.Edge path target →
      rank target < rank path := by
    rintro path target hpath ⟨library, i, hlibrary, hi, rfl⟩
    rw [resolve?, hpath] at hlibrary
    exact hrank _ (Dict.mem_of_get? hlibrary) i hi
  have hchain : ∀ {path target}, Path.normalise path = path →
      Relation.TransGen documents.Edge path target → rank target < rank path := by
    intro path target hpath hreaches
    induction hreaches with
    | single hedge => exact hstep hpath hedge
    | tail hbefore hedge ih =>
      have hmiddle := Reaches.normalise_eq hbefore.to_reflTransGen hpath
      exact Nat.lt_trans (hstep hmiddle hedge) ih
  intro path hcycle
  obtain ⟨before, -, hedge⟩ := Relation.TransGen.tail'_iff.mp hcycle
  exact Nat.lt_irrefl _ (hchain hedge.normalise_eq hcycle)

end Documents

/-! ## The plain definition -/

namespace Plain

/-- The definitions of a library. -/
def own (path : String) (library : Library) : List Callable :=
  library.actions.mapIdx fun index action => ⟨action, .library path, index, none⟩

/-- What one entry of an import brings in: the last action of that name, under the new name if the
entry gives one. -/
def taken (offered : List Callable) (entry : ActionImport) : List Callable :=
  match (offered.filter (·.name = entry.action)).getLast? with
  | none => []
  | some c =>
    match entry.as with
    | none => [c]
    | some given => [{ c with as := some given }]

/-- What the library at a path offers. -/
def actions (documents : Documents) (h : documents.Acyclic) (path : String) : List Callable :=
  match _ : documents.resolve? path with
  | none => []
  | some library =>
    (library.imports.attach.flatMap fun ⟨i, _⟩ =>
      i.actions.flatMap (taken (actions documents h (Path.resolve path i.path)))) ++
      own path library
termination_by h.wellFounded.wrap path
decreasing_by exact ⟨library, i, ‹_›, ‹_›, rfl⟩

/-- The first action of every name. -/
def firsts : List Callable → List Callable
  | [] => []
  | c :: rest => c :: (firsts rest).filter (·.name ≠ c.name)

/-- What a program imports. -/
def imports (documents : Documents) (h : documents.Acyclic) (p : Program) : List Callable :=
  firsts (p.libraryImports.flatMap fun i =>
    i.actions.flatMap (taken (actions documents h (Path.resolve "" i.path))))

variable {documents : Documents} {h : documents.Acyclic} {path : String}

theorem actions_of_absent (habsent : documents.resolve? path = none) :
    actions documents h path = [] := by
  rw [actions]
  split
  · rfl
  · rename_i hlibrary
    rw [habsent] at hlibrary
    cases hlibrary

/-- The equation of the recursion, without the proofs that it carries for termination. -/
theorem actions_of_library {library : Library} (hlibrary : documents.resolve? path = some library) :
    actions documents h path = (library.imports.flatMap fun i =>
      i.actions.flatMap (taken (actions documents h (Path.resolve path i.path)))) ++
        own path library := by
  rw [actions]
  split
  · rename_i habsent
    rw [hlibrary] at habsent
    cases habsent
  · rename_i other hother
    obtain rfl : other = library := Option.some.inj (hother.symm.trans hlibrary)
    rw [List.flatMap_subtype fun _ _ => rfl, List.unattach_attach]
    rfl

/-! ## The resolver's own parts, read plainly -/

theorem definitions_eq_own (path : String) (library : Library) :
    library.definitions path = own path library := by
  apply List.ext_getElem?
  intro index
  rw [Library.definitions, Callable.definitions_getElem?, own, List.getElem?_mapIdx]

theorem toList_find?_eq_taken (offered : List Callable) (entry : ActionImport) :
    ((Callable.find? entry.action offered).map (·.renamed entry.as)).toList =
      taken offered entry := by
  unfold taken Callable.find?
  rw [List.getLast?_filter]
  cases offered.reverse.find? (·.name = entry.action) with
  | none => rfl
  | some c => cases entry.as <;> simp [Callable.renamed]

theorem select_eq_taken (wanted : List ActionImport) (offered : List Callable) :
    Imports.select wanted offered = wanted.flatMap (taken offered) := by
  rw [Imports.select, List.filterMap_eq_flatMap_toList]
  apply List.flatMap_congr
  intro entry _
  exact toList_find?_eq_taken offered entry

/-- Going through a list with what is kept already: the kept ones stay, and their names are
taken. -/
theorem distinct_eq_firsts : ∀ (callables kept : List Callable),
    Imports.distinct kept callables =
      kept ++ (firsts callables).filter fun c => kept.all (·.name ≠ c.name)
  | [], kept => by simp [Imports.distinct, firsts]
  | c :: rest, kept => by
    rw [Imports.distinct, firsts, List.filter_cons]
    by_cases htaken : kept.any (·.name = c.name) = true
    · have hnot : ¬ kept.all (·.name ≠ c.name) = true := by simpa using htaken
      rw [if_pos htaken, if_neg hnot, distinct_eq_firsts rest kept, List.filter_filter]
      congr 1
      apply List.filter_congr
      intro d _
      -- What has the name of `c` is dropped already, for the kept one's sake.
      by_cases hname : d.name = c.name
      · simpa [hname] using htaken
      · simp [hname]
    · have hnew : kept.all (·.name ≠ c.name) = true := by simpa using htaken
      rw [if_neg htaken, if_pos hnew, distinct_eq_firsts rest (kept ++ [c]), List.filter_filter]
      rw [List.append_assoc, List.singleton_append]
      congr 2
      apply List.filter_congr
      intro d _
      simp [List.all_append, eq_comm]

end Plain

/-! ## The resolver computes the plain definition -/

namespace Imports

variable {documents : Documents} {imports : List LibraryImport} {finished : Finished}

/-- Below a library, an import is never shown a library that is being resolved. All that are on the
chain lead to the importer, and so the target cannot be one of them. -/
theorem Listed.shown_eq (h : documents.Acyclic) {above : List String} {path target : String}
    {callables : List Callable} (hlisted : Listed documents finished above path callables)
    (hedge : documents.Edge path target) (hknown : (documents.resolve? target).isSome) :
    shown documents (path :: above) finished target = (Dict.get? finished target).getD [] := by
  obtain ⟨library, hlibrary⟩ := Option.isSome_iff_exists.mp hknown
  have hfresh : target ∉ path :: above := by
    intro hmem
    apply h.not_reaches hedge
    rcases List.mem_cons.mp hmem with rfl | habove
    · exact .refl
    · exact hlisted.reaches target habove
  rw [shown, hlibrary]
  exact if_neg hfresh

/-- **The list of a finished library is that of the plain definition.** The resolver makes the list
from what it showed to the imports, and without cycles these are the finished lists of their
targets. -/
theorem Resolved.eq_actions (h : documents.Acyclic)
    (hresolved : Resolved documents imports finished)
    {path : String} {callables : List Callable}
    (hget : Dict.get? finished path = some callables) :
    callables = Plain.actions documents h path := by
  -- The induction is along the imports, which is how the plain definition recurs.
  induction path using h.wellFounded.induction generalizing callables with
  | _ path ih =>
    obtain ⟨above, -, hlisted⟩ := hresolved.listed path callables hget
    obtain ⟨library, hlibrary, hsettled, rfl⟩ := hlisted.made
    rw [Plain.actions_of_library hlibrary, ← Plain.definitions_eq_own]
    congr 1
    apply List.flatMap_congr
    intro i hi
    have hedge : documents.Edge path (Path.resolve path i.path) := ⟨library, i, hlibrary, hi, rfl⟩
    rw [Plain.select_eq_taken]
    cases htarget : documents.resolve? (Path.resolve path i.path) with
    | none => rw [shown_of_absent htarget, Plain.actions_of_absent htarget]
    | some target =>
      have hknown := Option.isSome_of_eq_some htarget
      have hkey := hresolved.mem_keys_of_edge (Dict.mem_keys_of_get? hget) hedge hknown
      obtain ⟨list, hlist⟩ := Dict.exists_of_mem_keys hkey
      rw [hlisted.shown_eq h hedge hknown, hlist, Option.getD_some, ih _ hedge hlist]

/-- The same for what a program imports, where a document may be missing. -/
theorem Resolved.getD_eq_actions (h : documents.Acyclic)
    (hresolved : Resolved documents imports finished) {i : LibraryImport} (hi : i ∈ imports) :
    (Dict.get? finished (Path.resolve "" i.path)).getD [] =
      Plain.actions documents h (Path.resolve "" i.path) := by
  cases hlibrary : documents.resolve? (Path.resolve "" i.path) with
  | none =>
    have hnone : Dict.get? finished (Path.resolve "" i.path) = none := by
      rw [Dict.get?_eq_none_iff]
      intro hkey
      have hknown := hresolved.known hkey
      simp [hlibrary] at hknown
    rw [hnone, Plain.actions_of_absent hlibrary]
    rfl
  | some library =>
    have hkey := hresolved.settled i hi (Option.isSome_of_eq_some hlibrary)
    obtain ⟨list, hlist⟩ := Dict.exists_of_mem_keys hkey
    rw [hlist, Option.getD_some, hresolved.eq_actions h hlist]

/-- **Without cycles, resolution is the plain reading of imports.** The list of every library that
is finished is the one of the plain definition; the libraries that are finished are those that the
program's imports lead to; and what the program imports is the first action of every name among
those that its import statements bring in. -/
theorem ofProgram_eq_plain {documents : Documents} (h : documents.Acyclic) (p : Program) :
    (∀ entry ∈ (Callables.ofProgram documents p).libraries,
        entry.2 = Plain.actions documents h entry.1) ∧
      (∀ path, path ∈ Dict.keys (Callables.ofProgram documents p).libraries ↔
        (documents.resolve? path).isSome ∧
          ∃ i ∈ p.libraryImports, documents.Reaches (Path.resolve "" i.path) path) ∧
      (ofProgram documents p).1 = Plain.imports documents h p := by
  have hresolved := ofProgram_resolved documents p
  refine ⟨?_, ?_, ?_⟩
  · intro entry hentry
    exact hresolved.eq_actions h (Dict.get?_of_mem (ofProgram_keys_nodup documents p) hentry)
  · intro path
    exact hresolved.mem_keys_iff
  · have hall : ∀ callables : List Callable,
        (callables.filter fun c => ([] : List Callable).all (·.name ≠ c.name)) = callables := by
      simp
    rw [ofProgram_imports, Plain.distinct_eq_firsts, hall, List.nil_append, Plain.imports]
    congr 1
    apply List.flatMap_congr
    intro i hi
    rw [Plain.select_eq_taken, hresolved.getD_eq_actions h hi]

end Imports

namespace Diamond

/-- The import of one action, perhaps under another name. -/
def one (path name : String) (as : Option String) : LibraryImport :=
  ⟨path, [⟨name, as, .onLine 1⟩], .onLine 1⟩

/-- Two libraries share a third one, which defines `fade` twice. `top` renames what `left` has
renamed already, asks for a name that nobody has and for a document that is not there. -/
def documents : Documents := .ofList [
  ("lib/base.cue", ⟨"base", [], [Cycle.action "fade", Cycle.action "fade"]⟩),
  ("lib/left.cue", ⟨"left", [one "./base.cue" "fade" (some "appear")], []⟩),
  ("lib/right.cue", ⟨"right", [one "base.cue" "fade" none], [Cycle.action "appear"]⟩),
  ("top.cue", ⟨"top", [one "lib/left.cue" "appear" (some "enter"), one "lib/right.cue" "fade" none,
    one "lib/left.cue" "gone" none, one "none.cue" "fade" none], [Cycle.action "leave"]⟩)]

/-- How far a document stands from the bottom. -/
def rank (path : String) : Nat :=
  if path = "top.cue" then 2
  else if path = "lib/left.cue" ∨ path = "lib/right.cue" then 1
  else 0

/-- The second `appear` is not the one of the first import and is dropped. -/
def program : Program where
  elements := [.libraryImport (one "./top.cue" "enter" (some "appear")),
    .libraryImport (one "lib/right.cue" "appear" none), .libraryImport (one "top.cue" "fade" none)]
  location := .onLine 1

end Diamond

/-- On the diamond: four libraries are finished, the shared one once, and the program gets the last
`fade` under two names. -/
theorem Imports.ofProgram_eq_plain_diamond :
    ∃ h : Diamond.documents.Acyclic,
      Dict.keys (Callables.ofProgram Diamond.documents Diamond.program).libraries =
        ["lib/base.cue", "lib/left.cue", "lib/right.cue", "top.cue"] ∧
      (∀ entry ∈ (Callables.ofProgram Diamond.documents Diamond.program).libraries,
        entry.2 = Plain.actions Diamond.documents h entry.1) ∧
      (Plain.imports Diamond.documents h Diamond.program).map (fun c => (c.name, c.index)) =
        [("appear", 1), ("fade", 1)] := by
  have h : Diamond.documents.Acyclic :=
    .of_rank Diamond.rank (by decide +kernel)
  obtain ⟨hlibraries, -, himports⟩ := Imports.ofProgram_eq_plain h Diamond.program
  refine ⟨h, by decide +kernel, hlibraries, ?_⟩
  rw [← himports]
  decide +kernel

end Cuesheet
