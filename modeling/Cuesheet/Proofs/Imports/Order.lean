import Cuesheet.Proofs.Callables.Definitions

/-!
# The order of imports

Whether the lists of libraries depend on the order in which a program imports them. They can: a
library that is finished while another one is on the chain has seen that one's own definitions
only, and its list stays as it is when the other one is finished. This is felt exactly if some
library imports, from another one that leads back to it, an action that the other one does not
define but passes on.

`Documents.CyclesShowOwn` says that no library does. `Imports.order_independent_iff` proves that
this is the exact condition under which every program, and every program with more imports or the
same ones in another order, gets the same lists. `Imports.order_matters` is the smallest cycle that
fails it.
-/

set_option autoImplicit false

namespace Cuesheet

namespace Documents

/-- The library at `importer` imports the action of `entry` from `target`. -/
def Wants (documents : Documents) (importer target : String) (entry : ActionImport) : Prop :=
  ∃ library i, documents.resolve? importer = some library ∧ i ∈ library.imports ∧
    Path.resolve importer i.path = target ∧ entry ∈ i.actions

/-- The library at `path` has an action called `name` of its own. -/
def Defines (documents : Documents) (path name : String) : Prop :=
  ∃ library, documents.resolve? path = some library ∧ ∃ a ∈ library.actions, a.name = name

/-- The names that the library at `path` has for its importers when its imports are resolved in
full. From itself it gets its own definitions only. -/
inductive Offers (documents : Documents) : String → String → Prop
  | own {path name : String} (h : documents.Defines path name) : Offers documents path name
  | self {path : String} {entry : ActionImport} (hwants : documents.Wants path path entry)
      (h : documents.Defines path entry.action) :
      Offers documents path (entry.as.getD entry.action)
  | imported {path target : String} {entry : ActionImport}
      (hwants : documents.Wants path target entry) (hne : target ≠ path)
      (h : Offers documents target entry.action) :
      Offers documents path (entry.as.getD entry.action)

/-- What a library imports from another one that leads back to it, the other one defines itself, if
it offers it at all. -/
def CyclesShowOwn (documents : Documents) : Prop :=
  ∀ importer target entry, documents.Wants importer target entry → target ≠ importer →
    documents.Reaches target importer → documents.Offers target entry.action →
    documents.Defines target entry.action

theorem Wants.edge {documents : Documents} {importer target : String} {entry : ActionImport}
    (h : documents.Wants importer target entry) : documents.Edge importer target := by
  obtain ⟨library, i, hlibrary, hi, htarget, -⟩ := h
  exact ⟨library, i, hlibrary, hi, htarget⟩

/-- Imports only ever lead to normalised paths, since they are resolved. -/
theorem Edge.normalise_eq {documents : Documents} {importer target : String}
    (h : documents.Edge importer target) : Path.normalise target = target := by
  obtain ⟨library, i, -, -, rfl⟩ := h
  exact Path.normalise_resolve importer i.path

theorem Reaches.normalise_eq {documents : Documents} {path target : String}
    (h : documents.Reaches path target) (hpath : Path.normalise path = path) :
    Path.normalise target = target := by
  cases h with
  | refl => exact hpath
  | tail _ hedge => exact hedge.normalise_eq

theorem Offers.known {documents : Documents} {path name : String}
    (h : documents.Offers path name) : (documents.resolve? path).isSome := by
  have hwanting : ∀ {target entry}, documents.Wants path target entry →
      (documents.resolve? path).isSome := by
    rintro target entry ⟨library, i, hlibrary, -⟩
    exact Option.isSome_of_eq_some hlibrary
  cases h with
  | own h =>
    obtain ⟨library, hlibrary, -⟩ := h
    exact Option.isSome_of_eq_some hlibrary
  | self hwants _ => exact hwanting hwants
  | imported hwants _ _ => exact hwanting hwants

end Documents

namespace Callable

theorem renamed_name {c : Callable} {entry : ActionImport} (h : c.name = entry.action) :
    (c.renamed entry.as).name = entry.as.getD entry.action := by
  cases has : entry.as with
  | none => simpa [renamed, name] using h
  | some given => simp [renamed, name]

theorem find?_isSome_iff {name : String} {callables : List Callable} :
    (find? name callables).isSome ↔ ∃ c ∈ callables, c.name = name := by
  rw [← not_iff_not, Bool.not_eq_true, Option.isSome_eq_false_iff, Option.isNone_iff_eq_none,
    find?_eq_none_iff]
  simp

end Callable

/-- `Defines` in terms of what a call would find among the definitions. -/
theorem Documents.defines_iff {documents : Documents} {path name : String} {library : Library}
    (hlibrary : documents.resolve? path = some library) : documents.Defines path name ↔
      (Callable.find? name (library.definitions path)).isSome := by
  have hnames : (∃ c ∈ library.definitions path, c.name = name) ↔
      ∃ a ∈ library.actions, a.name = name := by
    have hmap := Callable.definitions_names (.library path) library.actions
    rw [← List.mem_map, Library.definitions, hmap, List.mem_map]
  rw [Callable.find?_isSome_iff, hnames]
  constructor
  · rintro ⟨other, hother, ha⟩
    rw [hlibrary, Option.some.injEq] at hother
    exact hother ▸ ha
  · intro ha
    exact ⟨library, hlibrary, ha⟩

namespace Imports

variable {documents : Documents}

/-! ## Names that are found are offered -/

/-- **A finished list has no names but those that its library offers.** An import was shown a
definition or an entry of a finished list, and the latter is offered by the induction hypothesis.
The library itself is on the chain while its imports are resolved, so from itself it gets
definitions only. -/
theorem offers_hereditary : Hereditary documents fun path callables =>
    ∀ c ∈ callables, documents.Offers path c.name := by
  intro finished chain path callables hfinished hlisted c hc
  obtain ⟨library, hlibrary, -, rfl⟩ := hlisted.made
  rcases List.mem_append.mp hc with himported | hown
  · obtain ⟨i, hi, hselected⟩ := List.mem_flatMap.mp himported
    obtain ⟨entry, hentry, found, hfound, rfl⟩ := mem_select_iff.mp hselected
    have hwants : documents.Wants path (Path.resolve path i.path) entry :=
      ⟨library, i, hlibrary, hi, rfl, hentry⟩
    rw [Callable.renamed_name (Callable.name_of_find? hfound)]
    -- An import is shown nothing, definitions, or a finished list.
    obtain hshown | ⟨target, htarget, -, hshown⟩ | ⟨hnew, list, hlist, hshown⟩ :=
      shown_cases documents (path :: chain) finished (Path.resolve path i.path)
    · rw [hshown] at hfound
      exact absurd hfound (by simp [Callable.find?])
    · rw [hshown] at hfound
      have hdefines : documents.Defines (Path.resolve path i.path) entry.action :=
        (Documents.defines_iff htarget).mpr (Option.isSome_of_eq_some hfound)
      by_cases hself : Path.resolve path i.path = path
      · rw [hself] at hwants hdefines
        exact .self hwants hdefines
      · exact .imported hwants hself (.own hdefines)
    · rw [hshown] at hfound
      have hoffers := hfinished _ list hlist found (Callable.mem_of_find? hfound)
      rw [Callable.name_of_find? hfound] at hoffers
      refine .imported hwants (fun hself => hnew ?_) hoffers
      rw [hself]
      exact List.mem_cons_self
  · refine .own ((Documents.defines_iff hlibrary).mpr ?_)
    exact Callable.find?_isSome_iff.mpr ⟨c, hown, rfl⟩

/-! ## Where cycles show their own, the order does not matter -/

section

open Classical in
/-- How many documents the library at `path` leads to. -/
noncomputable def reach (documents : Documents) (path : String) : Nat :=
  (documents.paths.filter fun other => documents.Reaches path other).length

/-- Behind an import that does not lead back there are fewer documents: the importer itself is
missing. -/
theorem reach_lt {path target : String} (hpath : path ∈ documents.paths)
    (hedge : documents.Edge path target) (hback : ¬ documents.Reaches target path) :
    reach documents target < reach documents path := by
  classical
  have hfilter : documents.paths.filter (fun other => documents.Reaches target other) =
      (documents.paths.filter fun other => documents.Reaches path other).filter
        fun other => documents.Reaches target other := by
    rw [List.filter_filter]
    refine List.filter_congr fun other _ => ?_
    have hfurther : documents.Reaches target other → documents.Reaches path other :=
      fun h => h.head hedge
    by_cases hother : documents.Reaches target other
    · simp [hother, hfurther hother]
    · simp [hother]
  unfold reach
  rw [hfilter]
  refine List.length_filter_lt_length_iff_exists.mpr ⟨path, ?_, by simpa using hback⟩
  exact List.mem_filter.mpr ⟨hpath, by simpa using Relation.ReflTransGen.refl⟩

theorem select_congr {wanted : List ActionImport} {first second : List Callable}
    (h : ∀ entry ∈ wanted, Callable.find? entry.action first =
      Callable.find? entry.action second) : select wanted first = select wanted second := by
  refine List.filterMap_congr fun entry hentry => ?_
  rw [h entry hentry]

variable {imports others : List LibraryImport} {finished other : Finished}

theorem Resolved.mem_paths (h : Resolved documents imports finished) {path : String}
    (hpath : path ∈ Dict.keys finished) : path ∈ documents.paths := by
  obtain ⟨i, -, hreaches⟩ := h.reached path hpath
  obtain ⟨library, hlibrary⟩ := Option.isSome_iff_exists.mp (h.known hpath)
  exact Documents.mem_paths (hreaches.normalise_eq (Path.normalise_resolve _ _)) hlibrary

/-- From a library that leads back, an import finds the own definitions, whichever of its lists it
is shown. -/
theorem Resolved.find?_shown (hcycles : documents.CyclesShowOwn)
    (h : Resolved documents imports finished) {above : List String} {path target : String}
    {library : Library} {entry : ActionImport} (hwants : documents.Wants path target entry)
    (hne : target ≠ path) (hback : documents.Reaches target path)
    (hlibrary : documents.resolve? target = some library)
    (hsettled : Settled documents (path :: above) finished target) :
    Callable.find? entry.action (shown documents (path :: above) finished target) =
      Callable.find? entry.action (library.definitions target) := by
  have hknown := Option.isSome_of_eq_some hlibrary
  by_cases hchain : target ∈ path :: above
  · rw [shown_of_mem hlibrary hchain]
  · obtain ⟨callables, hget⟩ := Dict.exists_of_mem_keys ((hsettled hknown).resolve_left hchain)
    have hoffers := h.induct _ offers_hereditary target callables hget
    obtain ⟨below, -, hlisted⟩ := h.listed target callables hget
    obtain ⟨-, hlist⟩ := hlisted.parts hlibrary
    rw [shown_of_get? hknown hchain hget, hlist, Callable.find?_append]
    cases hown : Callable.find? entry.action (library.definitions target) with
    | some c => rfl
    | none =>
      -- Whatever else it had under that name would be offered, hence defined after all.
      rw [Option.none_or, Callable.find?_eq_none_iff]
      intro c hc hname
      have hoffer : documents.Offers target entry.action :=
        hname ▸ hoffers c (hlist ▸ List.mem_append_left _ hc)
      have hdefines := (Documents.defines_iff hlibrary).mp
        (hcycles path target entry hwants hne hback hoffer)
      rw [hown] at hdefines
      exact absurd hdefines (by simp)

/-- **Where cycles show their own, a library has one list**, whatever is imported and in whatever
order. -/
theorem Resolved.list_eq (hcycles : documents.CyclesShowOwn)
    (h : Resolved documents imports finished) (h' : Resolved documents others other)
    {path : String} {first second : List Callable}
    (hfirst : Dict.get? finished path = some first)
    (hsecond : Dict.get? other path = some second) : first = second := by
  -- Imports that do not lead back go to libraries with fewer documents behind them.
  induction hn : reach documents path using Nat.strongRecOn generalizing path first second with
  | ind n ih =>
    have hpath := h.mem_paths (Dict.mem_keys_of_get? hfirst)
    obtain ⟨above, -, hlisted⟩ := h.listed path first hfirst
    obtain ⟨above', -, hlisted'⟩ := h'.listed path second hsecond
    obtain ⟨library, hlibrary, hsettled, rfl⟩ := hlisted.made
    obtain ⟨hsettled', rfl⟩ := hlisted'.parts hlibrary
    refine congrArg (· ++ _) (List.flatMap_congr fun i hi => select_congr fun entry hentry => ?_)
    have hwants : documents.Wants path (Path.resolve path i.path) entry :=
      ⟨library, i, hlibrary, hi, rfl, hentry⟩
    cases htarget : documents.resolve? (Path.resolve path i.path) with
    | none => rw [shown_of_absent htarget, shown_of_absent htarget]
    | some target =>
      by_cases hself : Path.resolve path i.path = path
      · rw [hself, shown_of_mem hlibrary List.mem_cons_self,
          shown_of_mem hlibrary List.mem_cons_self]
      · by_cases hback : documents.Reaches (Path.resolve path i.path) path
        · rw [h.find?_shown hcycles hwants hself hback htarget (hsettled i hi),
            h'.find?_shown hcycles hwants hself hback htarget (hsettled' i hi)]
        · have hknown := Option.isSome_of_eq_some htarget
          have hnew : Path.resolve path i.path ∉ path :: above := fun hmem =>
            hback (hlisted.reaches _ ((List.mem_cons.mp hmem).resolve_left hself))
          have hnew' : Path.resolve path i.path ∉ path :: above' := fun hmem =>
            hback (hlisted'.reaches _ ((List.mem_cons.mp hmem).resolve_left hself))
          obtain ⟨list, hlist⟩ :=
            Dict.exists_of_mem_keys ((hsettled i hi hknown).resolve_left hnew)
          obtain ⟨list', hlist'⟩ :=
            Dict.exists_of_mem_keys ((hsettled' i hi hknown).resolve_left hnew')
          have heq := ih _ (hn ▸ reach_lt hpath hwants.edge hback) hlist hlist' rfl
          rw [shown_of_get? hknown hnew hlist, shown_of_get? hknown hnew' hlist', heq]

end

/-! ## Where the order does not matter, cycles show their own -/

/-- Every program gets the same lists as one with more imports or with the same ones in another
order. -/
def OrderIndependent (documents : Documents) : Prop :=
  ∀ p q : Program, p.libraryImports.Subperm q.libraryImports → ∀ path first second,
    Dict.get? (ofProgram documents p).2 path = some first →
    Dict.get? (ofProgram documents q).2 path = some second → first = second

/-- A program that imports libraries, and nothing from them. -/
def importing (paths : List String) : Program where
  elements := paths.map fun path => .libraryImport ⟨path, [], .onLine 1⟩
  location := .onLine 1

/-- The program is only there to have libraries resolved, so it has nothing but these imports. -/
theorem libraryImports_importing (paths : List String) : (importing paths).libraryImports =
    paths.map fun path => ⟨path, [], .onLine 1⟩ := by
  rw [Program.libraryImports, importing, List.filterMap_map]
  exact congrFun List.filterMap_eq_map paths

theorem mem_keys_importing {paths : List String} {root path : String} (hroot : root ∈ paths)
    (hnormal : Path.normalise root = root) (hreaches : documents.Reaches root path)
    (hknown : (documents.resolve? path).isSome) :
    path ∈ Dict.keys (ofProgram documents (importing paths)).2 := by
  refine (ofProgram_resolved documents (importing paths)).mem_keys_iff.mpr ⟨hknown, ?_⟩
  rw [libraryImports_importing]
  refine ⟨_, List.mem_map.mpr ⟨root, hroot, rfl⟩, ?_⟩
  rw [Path.resolve_empty, hnormal]
  exact hreaches

/-- Two programs with one import each get the same lists: a third one has both imports. -/
theorem OrderIndependent.single_eq (hagree : OrderIndependent documents) {a b path : String}
    {first second : List Callable}
    (hfirst : Dict.get? (ofProgram documents (importing [a])).2 path = some first)
    (hsecond : Dict.get? (ofProgram documents (importing [b])).2 path = some second) :
    first = second := by
  have hboth : path ∈ Dict.keys (ofProgram documents (importing [a, b])).2 := by
    have hkey := (ofProgram_resolved documents (importing [a])).mem_keys_iff.mp
      (Dict.mem_keys_of_get? hfirst)
    refine (ofProgram_resolved documents (importing [a, b])).mem_keys_iff.mpr ⟨hkey.1, ?_⟩
    obtain ⟨i, hi, hreaches⟩ := hkey.2
    rw [libraryImports_importing, List.map_singleton, List.mem_singleton] at hi
    rw [libraryImports_importing]
    exact ⟨i, by simp [hi], hreaches⟩
  obtain ⟨both, hget⟩ := Dict.exists_of_mem_keys hboth
  -- Either program has fewer imports than the one with both.
  have hleft : (importing [a]).libraryImports.Subperm (importing [a, b]).libraryImports := by
    rw [libraryImports_importing, libraryImports_importing]
    exact (List.Sublist.cons_cons _ (List.nil_sublist _)).subperm
  have hright : (importing [b]).libraryImports.Subperm (importing [a, b]).libraryImports := by
    rw [libraryImports_importing, libraryImports_importing]
    exact (List.sublist_cons_self _ _).subperm
  rw [hagree _ _ hleft path first both hfirst hget, hagree _ _ hright path second both hsecond hget]

/-- A library that is imported alone is resolved with nothing above it. Then its imports are
resolved in full, and no cycle cuts them short but those through itself. -/
theorem listed_importing {path : String} (hnormal : Path.normalise path = path)
    (hknown : (documents.resolve? path).isSome) :
    ∃ callables, Dict.get? (ofProgram documents (importing [path])).2 path = some callables ∧
      Listed documents (ofProgram documents (importing [path])).2 [] path callables := by
  have hkey : path ∈ Dict.keys (ofProgram documents (importing [path])).2 :=
    mem_keys_importing (by simp) hnormal .refl hknown
  obtain ⟨callables, hget⟩ := Dict.exists_of_mem_keys hkey
  refine ⟨callables, hget, ?_⟩
  rcases ofProgram_single (libraryImports_importing [path]) hget with
    ⟨-, hlisted⟩ | ⟨above, habove, hlisted⟩
  · exact hlisted
  · rw [Path.resolve_empty, hnormal] at habove
    exact absurd habove hlisted.fresh

/-- What an import finds is in the list, under the name that the import gives it. -/
theorem Listed.mem_of_wants {finished : Finished} {chain : List String} {path target : String}
    {callables : List Callable} (h : Listed documents finished chain path callables)
    {entry : ActionImport} (hwants : documents.Wants path target entry)
    (hfound : (Callable.find? entry.action
      (shown documents (path :: chain) finished target)).isSome) :
    ∃ c ∈ callables, c.name = entry.as.getD entry.action := by
  obtain ⟨library, i, hlibrary, hi, rfl, hentry⟩ := hwants
  obtain ⟨-, rfl⟩ := h.parts hlibrary
  obtain ⟨found, hfound⟩ := Option.isSome_iff_exists.mp hfound
  refine ⟨found.renamed entry.as, List.mem_append_left _ (List.mem_flatMap.mpr ⟨i, hi, ?_⟩),
    Callable.renamed_name (Callable.name_of_find? hfound)⟩
  exact mem_select_iff.mpr ⟨entry, hentry, found, hfound, rfl⟩

/-- An import of a library that is imported alone finds what its target has when that one is. -/
theorem OrderIndependent.find?_shown_isSome (hagree : OrderIndependent documents)
    {path target name : String} (hnormal : Path.normalise path = path)
    (hedge : documents.Edge path target) (hne : target ≠ path)
    (hknown : (documents.resolve? target).isSome) {callables : List Callable}
    (hget : Dict.get? (ofProgram documents (importing [target])).2 target = some callables)
    (hname : ∃ c ∈ callables, c.name = name) :
    (Callable.find? name (shown documents [path] (ofProgram documents (importing [path])).2
      target)).isSome := by
  have hkey : target ∈ Dict.keys (ofProgram documents (importing [path])).2 :=
    mem_keys_importing (by simp) hnormal (.single hedge) hknown
  obtain ⟨list, hlist⟩ := Dict.exists_of_mem_keys hkey
  rw [shown_of_get? hknown (by simpa using hne) hlist, ← hagree.single_eq hget hlist]
  exact Callable.find?_isSome_iff.mpr hname

/-- Where the order does not matter, everything that a library offers is found in its list. -/
theorem OrderIndependent.mem_of_offers (hagree : OrderIndependent documents) {path name : String}
    (h : documents.Offers path name) (hnormal : Path.normalise path = path) :
    ∃ callables, Dict.get? (ofProgram documents (importing [path])).2 path = some callables ∧
      ∃ c ∈ callables, c.name = name := by
  induction h with
  | @own path name hdefines =>
    obtain ⟨callables, hget, hlisted⟩ := listed_importing hnormal
      (Documents.Offers.own hdefines).known
    obtain ⟨library, hlibrary, -, rfl⟩ := hlisted.made
    obtain ⟨c, hc, hname⟩ :=
      Callable.find?_isSome_iff.mp ((Documents.defines_iff hlibrary).mp hdefines)
    exact ⟨_, hget, c, List.mem_append_right _ hc, hname⟩
  -- From itself a library is shown its own definitions, since it is on the chain.
  | @self path entry hwants hdefines =>
    obtain ⟨callables, hget, hlisted⟩ := listed_importing hnormal
      (Documents.Offers.own hdefines).known
    obtain ⟨library, hlibrary, -⟩ := hlisted.made
    refine ⟨callables, hget, hlisted.mem_of_wants hwants ?_⟩
    rw [shown_of_mem hlibrary List.mem_cons_self]
    exact (Documents.defines_iff hlibrary).mp hdefines
  | @imported path target entry hwants hne hoffers ih =>
    obtain ⟨callables, hget, hlisted⟩ := listed_importing hnormal
      (Documents.Offers.imported hwants hne hoffers).known
    obtain ⟨list, hlist, hname⟩ := ih hwants.edge.normalise_eq
    exact ⟨callables, hget, hlisted.mem_of_wants hwants
      (hagree.find?_shown_isSome hnormal hwants.edge hne hoffers.known hlist hname)⟩

theorem length_flatMap_le {α β : Type} {f g : α → List β} : ∀ {xs : List α},
    (∀ x ∈ xs, (f x).length ≤ (g x).length) → (xs.flatMap f).length ≤ (xs.flatMap g).length
  | [], _ => Nat.le_refl _
  | x :: xs, h => by
    have hfirst := h x List.mem_cons_self
    have hrest := length_flatMap_le fun y hy => h y (List.mem_cons_of_mem _ hy)
    rw [List.flatMap_cons, List.flatMap_cons, List.length_append, List.length_append]
    omega

/-- If no part is longer and one part is shorter, the whole is shorter. -/
theorem length_flatMap_lt {α β : Type} {f g : α → List β} : ∀ {xs : List α},
    (∀ x ∈ xs, (f x).length ≤ (g x).length) → (∃ x ∈ xs, (f x).length < (g x).length) →
    (xs.flatMap f).length < (xs.flatMap g).length
  | [], _, h => absurd h (by simp)
  | x :: xs, hle, hlt => by
    have hfirst := hle x List.mem_cons_self
    have hrest : ∀ y ∈ xs, (f y).length ≤ (g y).length :=
      fun y hy => hle y (List.mem_cons_of_mem _ hy)
    rw [List.flatMap_cons, List.flatMap_cons, List.length_append, List.length_append]
    obtain ⟨y, hy, hlt⟩ := hlt
    rcases List.mem_cons.mp hy with rfl | hy
    · have hle := length_flatMap_le hrest
      omega
    · have hlt := length_flatMap_lt hrest ⟨y, hy, hlt⟩
      omega

/-- A library whose imports find less has a shorter list. Comparing lengths is enough to tell two
lists apart, and it needs nothing but which names are found. -/
theorem Listed.length_lt {first second : Finished} {chain chain' : List String} {path : String}
    {callables list : List Callable} (h : Listed documents first chain path callables)
    (h' : Listed documents second chain' path list)
    (hle : ∀ target entry, documents.Wants path target entry →
      (Callable.find? entry.action (shown documents (path :: chain) first target)).isSome →
      (Callable.find? entry.action (shown documents (path :: chain') second target)).isSome)
    {target : String} {entry : ActionImport} (hwants : documents.Wants path target entry)
    (hmissed : Callable.find? entry.action (shown documents (path :: chain) first target) = none)
    (hfound : (Callable.find? entry.action
      (shown documents (path :: chain') second target)).isSome) :
    callables.length < list.length := by
  obtain ⟨library, i, hlibrary, hi, rfl, hentry⟩ := hwants
  obtain ⟨-, rfl⟩ := h.parts hlibrary
  obtain ⟨-, rfl⟩ := h'.parts hlibrary
  -- Every import statement is a list of names, each of which is found or not.
  have hone : ∀ j ∈ library.imports, ∀ wanted ∈ j.actions,
      ((Callable.find? wanted.action (shown documents (path :: chain) first
        (Path.resolve path j.path))).map (·.renamed wanted.as)).toList.length ≤
      ((Callable.find? wanted.action (shown documents (path :: chain') second
        (Path.resolve path j.path))).map (·.renamed wanted.as)).toList.length := by
    intro j hj wanted hwanted
    cases hfirst : Callable.find? wanted.action (shown documents (path :: chain) first
        (Path.resolve path j.path)) with
    | none => simp
    | some c =>
      obtain ⟨d, hd⟩ := Option.isSome_iff_exists.mp
        (hle _ wanted ⟨library, j, hlibrary, hj, rfl, hwanted⟩ (Option.isSome_of_eq_some hfirst))
      simp [hd]
  have hselect : ∀ (wanted : List ActionImport) (shown : List Callable),
      select wanted shown = wanted.flatMap fun entry =>
        ((Callable.find? entry.action shown).map (·.renamed entry.as)).toList :=
    fun _ _ => List.filterMap_eq_flatMap_toList _ _
  simp only [hselect, List.length_append]
  refine Nat.add_lt_add_right (length_flatMap_lt
    (fun j hj => length_flatMap_le (hone j hj)) ⟨i, hi, ?_⟩) _
  refine length_flatMap_lt (hone i hi) ⟨entry, hentry, ?_⟩
  obtain ⟨c, hc⟩ := Option.isSome_iff_exists.mp hfound
  simp [hc, hmissed]

/-- Below another library, no import of `path` finds more than when `path` is imported alone. -/
theorem OrderIndependent.isSome_of_below (hagree : OrderIndependent documents)
    {root path target name : String} {above : List String}
    (hnormal : Path.normalise path = path) (hedge : documents.Edge path target)
    (h : (Callable.find? name (shown documents (path :: above)
      (ofProgram documents (importing [root])).2 target)).isSome) :
    (Callable.find? name (shown documents [path]
      (ofProgram documents (importing [path])).2 target)).isSome := by
  cases htarget : documents.resolve? target with
  | none =>
    rw [shown_of_absent htarget] at h
    exact absurd h (by simp [Callable.find?])
  | some library =>
    have hknown := Option.isSome_of_eq_some htarget
    by_cases hself : target = path
    · subst hself
      rw [shown_of_mem htarget List.mem_cons_self] at h ⊢
      exact h
    · have hkey : target ∈ Dict.keys (ofProgram documents (importing [path])).2 :=
        mem_keys_importing (by simp) hnormal (.single hedge) hknown
      obtain ⟨full, hfull⟩ := Dict.exists_of_mem_keys hkey
      rw [shown_of_get? hknown (by simpa using hself) hfull]
      -- Below another library, the target shows nothing, its own definitions, or a finished list.
      -- The first is no find, the second is a part of its full list, and the third is that list.
      obtain hnone | ⟨other, hother, -, hown⟩ | ⟨-, list, hlist, hshown⟩ :=
        shown_cases documents (path :: above) (ofProgram documents (importing [root])).2 target
      · rw [hnone] at h
        exact absurd h (by simp [Callable.find?])
      · obtain ⟨chain, -, hlisted⟩ :=
          (ofProgram_resolved documents (importing [path])).listed target full hfull
        obtain ⟨-, hparts⟩ := hlisted.parts hother
        rw [hown] at h
        rw [hparts, Callable.find?_append, Option.isSome_or, h]
        rfl
      · rw [hshown, hagree.single_eq hlist hfull] at h
        exact h

/-- If a library imports an action along a cycle that the other library only passes on, then its
list is shorter when the other library is the one that the program imports. -/
theorem OrderIndependent.cyclesShowOwn (hagree : OrderIndependent documents) :
    documents.CyclesShowOwn := by
  intro path target entry hwants hne hback hoffers
  by_contra hdefines
  have htarget := hwants.edge.normalise_eq
  have hpath := hback.normalise_eq htarget
  have hknown : (documents.resolve? path).isSome := by
    obtain ⟨library, i, hlibrary, -⟩ := id hwants
    exact Option.isSome_of_eq_some hlibrary
  obtain ⟨other, hother⟩ := Option.isSome_iff_exists.mp hoffers.known
  -- The library is resolved once alone, and once below the one that it imports from.
  obtain ⟨first, hfirst, halone⟩ := listed_importing hpath hknown
  have hkey : path ∈ Dict.keys (ofProgram documents (importing [target])).2 :=
    mem_keys_importing (by simp) htarget hback hknown
  obtain ⟨second, hsecond⟩ := Dict.exists_of_mem_keys hkey
  have hsingle := ofProgram_single (libraryImports_importing [target]) hsecond
  rw [Path.resolve_empty, htarget] at hsingle
  rcases hsingle with ⟨hself, -⟩ | ⟨above, habove, hbelow⟩
  · exact hne hself.symm
  · -- Below the target, the library is shown only what the target defines, and the action is not
    -- among that.
    have hmissed : Callable.find? entry.action (shown documents (path :: above)
        (ofProgram documents (importing [target])).2 target) = none := by
      rw [shown_of_mem hother (List.mem_cons_of_mem _ habove), ← Option.not_isSome_iff_eq_none]
      exact fun hfound => hdefines ((Documents.defines_iff hother).mpr hfound)
    have hfound : (Callable.find? entry.action (shown documents [path]
        (ofProgram documents (importing [path])).2 target)).isSome := by
      obtain ⟨list, hlist, hname⟩ := hagree.mem_of_offers hoffers htarget
      exact hagree.find?_shown_isSome hpath hwants.edge hne hoffers.known hlist hname
    have hlonger := hbelow.length_lt halone
      (fun _ _ hwants' => hagree.isSome_of_below hpath hwants'.edge) hwants hmissed hfound
    rw [hagree.single_eq hfirst hsecond] at hlonger
    exact absurd hlonger (Nat.lt_irrefl _)

/-! ## The exact condition -/

/-- What one import of a program brings in. -/
def brought (documents : Documents) (p : Program) (i : LibraryImport) : List Callable :=
  select i.actions
    ((Callables.ofProgram documents p).visibleFrom (.library (Path.resolve "" i.path)))

/-- **The order of imports does not matter exactly if cycles show their own.** A program imports
what its import statements bring in, the first action of every name. That each library has the same
list for a program and for one with more imports or with the same ones in another order, and that
an import statement brings in the same, is equivalent to this: whatever a library imports from
another one that leads back to it, the other one defines itself. -/
theorem order_independent_iff (documents : Documents) :
    (∀ p : Program, (ofProgram documents p).1 =
        distinct [] (p.libraryImports.flatMap (brought documents p))) ∧
      ((∀ p q : Program, p.libraryImports.Subperm q.libraryImports →
          (∀ path first second,
            Dict.get? (Callables.ofProgram documents p).libraries path = some first →
            Dict.get? (Callables.ofProgram documents q).libraries path = some second →
            first = second) ∧
          ∀ i ∈ p.libraryImports, brought documents p i = brought documents q i) ↔
        documents.CyclesShowOwn) := by
  refine ⟨ofProgram_imports documents, ?_, ?_⟩
  · intro h
    exact OrderIndependent.cyclesShowOwn fun p q hsub => (h p q hsub).1
  · intro hcycles p q hsub
    have hp := ofProgram_resolved documents p
    have hq := ofProgram_resolved documents q
    refine ⟨fun path first second => hp.list_eq hcycles hq, fun i hi => ?_⟩
    -- What an import brings in is selected from the list of its library, if the library is there.
    refine congrArg (fun list => select i.actions (Option.getD list [])) ?_
    by_cases hknown : (documents.resolve? (Path.resolve "" i.path)).isSome
    · obtain ⟨first, hfirst⟩ := Dict.exists_of_mem_keys (hp.settled i hi hknown)
      obtain ⟨second, hsecond⟩ := Dict.exists_of_mem_keys (hq.settled i (hsub.subset hi) hknown)
      rw [hp.list_eq hcycles hq hfirst hsecond] at hfirst
      exact hfirst.trans hsecond.symm
    · have hfirst := Dict.get?_eq_none_iff.mpr fun hkey => hknown (hp.known hkey)
      have hsecond := Dict.get?_eq_none_iff.mpr fun hkey => hknown (hq.known hkey)
      exact hfirst.trans hsecond.symm

end Imports

namespace Cycle

/-- An action without a body. -/
def action (name : String) : Action := ⟨name, [], .regular [], .onLine 1⟩

/-- The import of one action. -/
def one (path name : String) : LibraryImport := ⟨path, [⟨name, none, .onLine 1⟩], .onLine 1⟩

/-- `a` and `b` import from each other, and `b` wants an action that `a` only passes on. -/
def documents : Documents := .ofList [
  ("a.cue", ⟨"a", [one "b.cue" "fromB", one "c.cue" "deep"], [action "fromA"]⟩),
  ("b.cue", ⟨"b", [one "a.cue" "deep"], [action "fromB"]⟩),
  ("c.cue", ⟨"c", [], [action "deep"]⟩)]

/-- A program with two imports. -/
def program (first second : LibraryImport) : Program :=
  ⟨[.libraryImport first, .libraryImport second], .onLine 1⟩

end Cycle

/-- On this cycle the order matters. If `a` is imported first, `b` is finished while `a` is on the
chain and never gets `deep`; so a program that imports `deep` from `b` gets it or not. -/
theorem Imports.order_matters :
    (Cycle.program (Cycle.one "a.cue" "fromA") (Cycle.one "b.cue" "deep")).libraryImports.Perm
        (Cycle.program (Cycle.one "b.cue" "deep") (Cycle.one "a.cue" "fromA")).libraryImports ∧
      (Imports.brought Cycle.documents
        (Cycle.program (Cycle.one "a.cue" "fromA") (Cycle.one "b.cue" "deep"))
        (Cycle.one "b.cue" "deep")).map Callable.name = [] ∧
      (Imports.brought Cycle.documents
        (Cycle.program (Cycle.one "b.cue" "deep") (Cycle.one "a.cue" "fromA"))
        (Cycle.one "b.cue" "deep")).map Callable.name = ["deep"] :=
  ⟨.swap _ _ _, by decide +kernel, by decide +kernel⟩

end Cuesheet
