import Cuesheet.Proofs.Imports.Order

/-!
# The chain of imports

Resolution carries a chain of the libraries that are being resolved and a bound on its length. Here
it is written down as a relation without the bound, `Imports.Run`: the chain is a part of the
state, a library is put on it before its imports are worked through and taken off behind them, and
every call for a library is recorded with the states in which it starts and returns. A derivation
is finite, so whatever has one ends.

`Imports.collect_run` finds the derivation that the resolver follows, and
`Run.deterministic` says that there is no other. What a call does to the chain and to finished lists
is then an induction on derivations (`Run.orderly`); where the callables of the result come from is
one along the order in which libraries are finished (`definedBelow_hereditary`).
-/

set_option autoImplicit false

namespace Cuesheet

namespace Imports

variable {documents : Documents}

/-! ## Resolution without a bound -/

/-- What resolution changes as it goes. The library that was put on the chain last stands in
front. -/
structure Resolver where
  chain : List String
  finished : Finished

namespace Resolver

/-- Before anything is resolved. -/
def start : Resolver := ⟨[], []⟩

/-- What is answered at once: the list of a finished library, nothing for one that is not there, and
the own definitions of one that is being resolved. -/
def answer? (documents : Documents) (r : Resolver) (path : String) : Option (List Callable) :=
  match Dict.get? r.finished path with
  | some done => some done
  | none =>
    match documents.resolve? path with
    | none => some []
    | some library => if path ∈ r.chain then some (library.definitions path) else none

/-- A library is put on the chain. -/
def push (r : Resolver) (path : String) : Resolver := ⟨path :: r.chain, r.finished⟩

/-- The last library is taken off the chain, and a list is finished. -/
def pop (r : Resolver) (path : String) (callables : List Callable) : Resolver :=
  ⟨r.chain.tail, Dict.set r.finished path callables⟩

end Resolver

/-- A call for the library at `path`: the resolver when the call starts, when the imports of the
library come up, and when the call returns. -/
structure Request where
  path : String
  before : Resolver
  inside : Resolver
  after : Resolver

/-- The imports of the document at `importer` are worked through: what they bring in, the resolver
afterwards, and all calls on the way in the order in which they return. -/
inductive Run (documents : Documents) : (importer : String) → List LibraryImport → Resolver →
    List Callable → Resolver → List Request → Prop
  | done {importer : String} {r : Resolver} : Run documents importer [] r [] r []
  | answered {importer path : String} {i : LibraryImport} {rest : List LibraryImport}
      {r last : Resolver} {callables others : List Callable} {requests : List Request}
      (hpath : Path.resolve importer i.path = path)
      (hanswer : r.answer? documents path = some callables)
      (hrest : Run documents importer rest r others last requests) :
      Run documents importer (i :: rest) r (select i.actions callables ++ others) last
        (⟨path, r, r, r⟩ :: requests)
  | resolved {importer path : String} {i : LibraryImport} {rest : List LibraryImport}
      {r inner last : Resolver} {library : Library} {imported others : List Callable}
      {inside requests : List Request}
      (hpath : Path.resolve importer i.path = path)
      (hanswer : r.answer? documents path = none)
      (hlibrary : documents.resolve? path = some library)
      (hinside : Run documents path library.imports (r.push path) imported inner inside)
      (hrest : Run documents importer rest
        (inner.pop path (imported ++ library.definitions path)) others last requests) :
      Run documents importer (i :: rest) r
        (select i.actions (imported ++ library.definitions path) ++ others) last
        (inside ++ ⟨path, r, r.push path, inner.pop path (imported ++ library.definitions path)⟩ ::
          requests)

/-- A call is not answered at once exactly if the library is there, not finished, and not being
resolved. -/
theorem Resolver.answer?_eq_none_iff {r : Resolver} {path : String} {library : Library}
    (hlibrary : documents.resolve? path = some library) :
    r.answer? documents path = none ↔ Dict.get? r.finished path = none ∧ path ∉ r.chain := by
  unfold answer?
  cases Dict.get? r.finished path with
  | some done => simp
  | none => simp [hlibrary]

/-- There is one way to work through imports. So what the resolver does is described by the rules of
`Run` in full, and not only allowed by them. -/
theorem Run.deterministic {importer : String} {imports : List LibraryImport}
    {r last last' : Resolver}
    {callables callables' : List Callable} {requests requests' : List Request}
    (h : Run documents importer imports r callables last requests)
    (h' : Run documents importer imports r callables' last' requests') :
    callables' = callables ∧ last' = last ∧ requests' = requests := by
  induction h generalizing callables' last' requests' with
  | done =>
    cases h'
    exact ⟨rfl, rfl, rfl⟩
  -- A call is either answered at once or resolved, and the resolver alone decides which.
  | answered hpath hanswer _ ih =>
    cases h' with
    | answered hpath' hanswer' hrest' =>
      subst hpath hpath'
      rw [hanswer] at hanswer'
      cases hanswer'
      obtain ⟨rfl, rfl, rfl⟩ := ih hrest'
      exact ⟨rfl, rfl, rfl⟩
    | resolved hpath' hanswer' =>
      subst hpath hpath'
      rw [hanswer] at hanswer'
      cases hanswer'
  | resolved hpath hanswer hlibrary _ _ ihinside ihrest =>
    cases h' with
    | answered hpath' hanswer' =>
      subst hpath hpath'
      rw [hanswer] at hanswer'
      cases hanswer'
    | resolved hpath' _ hlibrary' hinside' hrest' =>
      subst hpath hpath'
      rw [hlibrary] at hlibrary'
      cases hlibrary'
      obtain ⟨rfl, rfl, rfl⟩ := ihinside hinside'
      obtain ⟨rfl, rfl, rfl⟩ := ihrest hrest'
      exact ⟨rfl, rfl, rfl⟩

/-- The resolver follows a run: while there is room below the chain for every document that is not
on it, the bound on the depth is not felt. -/
theorem collect_run (depth : Nat) : ∀ (chain : List String) (importer : String)
    (imports : List LibraryImport) (before : Finished), Bounded documents depth chain →
    ∃ requests, Run documents importer imports ⟨chain, before⟩
      (collect (offered documents depth chain) importer imports before).1
      ⟨chain, (collect (offered documents depth chain) importer imports before).2⟩ requests := by
  induction depth using Nat.strongRecOn with
  | ind depth ihdepth =>
    intro chain importer imports
    induction imports with
    | nil => exact fun before _ => ⟨[], .done⟩
    | cons i rest ihrest =>
      intro before hbounded
      have hpath := Path.normalise_resolve importer i.path
      obtain ⟨requests, hrest⟩ := ihrest
        (offered documents depth chain before (Path.resolve importer i.path)).2 hbounded
      simp only [collect]
      -- Three of the four ways are answers, and the last one is a run of its own below the library.
      obtain ⟨done, hdone, heq⟩ | ⟨hnew, habsent, heq⟩ | ⟨library, hnew, hlibrary, hshown, heq⟩ |
        ⟨library, below, imported, done, hdepth, hnew, hlibrary, hfresh, hcollect, heq⟩ :=
        offered_cases documents depth chain before (Path.resolve importer i.path)
      · rw [heq] at hrest ⊢
        exact ⟨_, .answered rfl (by simp [Resolver.answer?, hdone]) hrest⟩
      · rw [heq] at hrest ⊢
        exact ⟨_, .answered rfl (by simp [Resolver.answer?, hnew, habsent]) hrest⟩
      · have hchain := hbounded.mem_chain (Documents.mem_paths hpath hlibrary) hshown
        rw [heq] at hrest ⊢
        exact ⟨_, .answered rfl (by simp [Resolver.answer?, hnew, hlibrary, hchain]) hrest⟩
      · obtain ⟨below', hdepth', hbelow⟩ :=
          hbounded.push (Documents.mem_paths hpath hlibrary) hfresh
        obtain rfl : below' = below := by omega
        obtain ⟨inside, hinside⟩ := ihdepth below' (by omega) _ (Path.resolve importer i.path)
          library.imports before hbelow
        rw [hcollect] at hinside
        rw [heq] at hrest ⊢
        exact ⟨_, .resolved rfl ((Resolver.answer?_eq_none_iff hlibrary).mpr ⟨hnew, hfresh⟩)
          hlibrary hinside hrest⟩

/-! ## What calls leave as it was -/

/-- No library is on the chain twice, and none that is on it is finished. -/
structure Resolver.Sound (r : Resolver) : Prop where
  nodup : r.chain.Nodup
  pending : ∀ k ∈ r.chain, k ∉ Dict.keys r.finished

theorem Resolver.sound_start : Resolver.start.Sound :=
  ⟨List.nodup_nil, by simp [Resolver.start]⟩

theorem Resolver.Sound.push {r : Resolver} (h : r.Sound) {path : String}
    (hnew : Dict.get? r.finished path = none) (hfresh : path ∉ r.chain) : (r.push path).Sound := by
  refine ⟨List.nodup_cons.mpr ⟨hfresh, h.nodup⟩, ?_⟩
  intro k hk
  rcases List.mem_cons.mp hk with rfl | hk
  · exact Dict.get?_eq_none_iff.mp hnew
  · exact h.pending k hk

theorem Resolver.Sound.pop {r : Resolver} (h : r.Sound) {path : String} {chain : List String}
    (hchain : r.chain = path :: chain) (callables : List Callable) :
    (r.pop path callables).Sound ∧ Kept r.finished (r.pop path callables).finished := by
  have hnodup := h.nodup
  have hpending := h.pending
  rw [hchain] at hnodup hpending
  obtain ⟨hfresh, hrest⟩ := List.nodup_cons.mp hnodup
  have htail : (r.pop path callables).chain = chain := by simp [Resolver.pop, hchain]
  refine ⟨⟨htail ▸ hrest, ?_⟩, Kept.set (hpending path List.mem_cons_self) callables⟩
  intro k hk hmem
  rw [htail] at hk
  rcases Dict.mem_keys_set_iff.mp hmem with rfl | hmem
  · exact hfresh hk
  · exact hpending k (List.mem_cons_of_mem _ hk) hmem

/-- A call that never has a library on the chain twice, leaves the chain as it found it and changes
no finished list. -/
structure Request.Orderly (q : Request) : Prop where
  nodup : q.before.chain.Nodup
  nodup_inside : q.inside.chain.Nodup
  chain_eq : q.after.chain = q.before.chain
  kept : Kept q.before.finished q.after.finished

/-- **Every call on the way is orderly**, and so is the whole stretch. A call that resolves a
library puts it on the chain and takes it off again, and in between only calls are made that are
orderly themselves. -/
theorem Run.orderly {importer : String} {imports : List LibraryImport} {r last : Resolver}
    {callables : List Callable} {requests : List Request}
    (h : Run documents importer imports r callables last requests) (hsound : r.Sound) :
    last.Sound ∧ last.chain = r.chain ∧ Kept r.finished last.finished ∧
      ∀ q ∈ requests, q.Orderly := by
  induction h with
  | done => exact ⟨hsound, rfl, fun _ _ hget => hget, by simp⟩
  | answered _ _ _ ih =>
    obtain ⟨hlast, hchain, hkept, horderly⟩ := ih hsound
    refine ⟨hlast, hchain, hkept, ?_⟩
    intro q hq
    rcases List.mem_cons.mp hq with rfl | hq
    · exact ⟨hsound.nodup, hsound.nodup, rfl, fun _ _ hget => hget⟩
    · exact horderly q hq
  | @resolved _ path _ _ r inner _ library imported _ _ _ _ hanswer hlibrary _ _ ihinside ihrest =>
    obtain ⟨hnew, hfresh⟩ := (Resolver.answer?_eq_none_iff hlibrary).mp hanswer
    have hpushed := hsound.push hnew hfresh
    obtain ⟨hinner, hinnerChain, hinnerKept, hinside⟩ := ihinside hpushed
    obtain ⟨hpopped, hset⟩ := hinner.pop hinnerChain (imported ++ library.definitions path)
    -- The call itself: what was pushed is popped again.
    have hback : (inner.pop path (imported ++ library.definitions path)).chain = r.chain := by
      simp [Resolver.pop, hinnerChain, Resolver.push]
    have hkept : Kept r.finished
        (inner.pop path (imported ++ library.definitions path)).finished :=
      fun _ _ hget => hset _ _ (hinnerKept _ _ hget)
    obtain ⟨hlast, hchain, hrestKept, hrest⟩ := ihrest hpopped
    refine ⟨hlast, hchain.trans hback, fun _ _ hget => hrestKept _ _ (hkept _ _ hget), ?_⟩
    intro q hq
    rcases List.mem_append.mp hq with hq | hq
    · exact hinside q hq
    · rcases List.mem_cons.mp hq with rfl | hq
      · exact ⟨hsound.nodup, hpushed.nodup, hback, hkept⟩
      · exact hrest q hq

/-! ## Where the callables of the result come from -/

/-- The callable is a definition of a library that the one at `path` leads to. -/
def DefinedBelow (documents : Documents) (path : String) (c : Callable) : Prop :=
  ∃ origin library, c.origin = .library origin ∧ documents.Reaches path origin ∧
    documents.resolve? origin = some library ∧ library.actions[c.index]? = some c.action

theorem definedBelow_own {path : String} {library : Library} {c : Callable}
    (hlibrary : documents.resolve? path = some library) (hc : c ∈ library.definitions path) :
    DefinedBelow documents path c := by
  obtain ⟨haction, horigin, -⟩ := Callable.mem_definitions_iff.mp hc
  exact ⟨path, library, horigin, .refl, hlibrary, haction⟩

theorem DefinedBelow.of_mem_select {path : String} {wanted : List ActionImport}
    {offered : List Callable} {c : Callable} (hc : c ∈ select wanted offered)
    (h : ∀ found ∈ offered, DefinedBelow documents path found) : DefinedBelow documents path c := by
  obtain ⟨entry, -, found, hfound, rfl⟩ := mem_select_iff.mp hc
  -- A new name changes neither the origin nor the definition.
  exact h found (Callable.mem_of_find? hfound)

/-- A library that is being resolved shows definitions before it is finished; all the same, they are
definitions of a library that the importer leads to. -/
theorem definedBelow_hereditary : Hereditary documents fun path callables =>
    ∀ c ∈ callables, DefinedBelow documents path c := by
  intro finished chain path callables hfinished hlisted c hc
  obtain ⟨library, hlibrary, -, rfl⟩ := hlisted.made
  rcases List.mem_append.mp hc with himported | hown
  · obtain ⟨i, hi, hselected⟩ := List.mem_flatMap.mp himported
    have hshown : ∀ found ∈ shown documents (path :: chain) finished (Path.resolve path i.path),
        DefinedBelow documents (Path.resolve path i.path) found := by
      intro found hfound
      obtain h | ⟨target, htarget, -, h⟩ | ⟨-, list, hlist, h⟩ :=
        shown_cases documents (path :: chain) finished (Path.resolve path i.path)
      · rw [h] at hfound
        cases hfound
      · rw [h] at hfound
        exact definedBelow_own htarget hfound
      · rw [h] at hfound
        exact hfinished _ list hlist found hfound
    obtain ⟨origin, other, horigin, hreaches, hother, haction⟩ :=
      DefinedBelow.of_mem_select hselected hshown
    exact ⟨origin, other, horigin, hreaches.head ⟨library, i, hlibrary, hi, rfl⟩, hother, haction⟩
  · exact definedBelow_own hlibrary hown

end Imports

namespace Callables

variable {documents : Documents} {p : Program}

/-- Whatever a program sees of libraries is defined below one of its imports. -/
theorem definedBelow_of_mem {c : Callable}
    (hc : c ∈ (ofProgram documents p).program ∨
      ∃ entry ∈ (ofProgram documents p).libraries, c ∈ entry.2)
    (hlibrary : c.origin ≠ .program) :
    ∃ i ∈ p.libraryImports, Imports.DefinedBelow documents (Path.resolve "" i.path) c := by
  have hresolved := Imports.ofProgram_resolved documents p
  rcases hc with hprogram | ⟨⟨path, callables⟩, hentry, hc⟩
  · rcases mem_program_iff.mp hprogram with ⟨himported, -⟩ | hown
    · obtain ⟨i, hi, hselected⟩ := Imports.mem_ofProgram himported
      refine ⟨i, hi, Imports.DefinedBelow.of_mem_select hselected ?_⟩
      exact visibleFrom_induct (by simp) Imports.definedBelow_hereditary _
    · obtain ⟨-, horigin, -⟩ := Callable.mem_definitions_iff.mp hown
      exact absurd horigin hlibrary
  · have hget := Dict.get?_of_mem (Imports.ofProgram_keys_nodup documents p) hentry
    obtain ⟨i, hi, hpath⟩ := hresolved.reached path (Dict.mem_keys_of_get? hget)
    obtain ⟨origin, library, horigin, hreaches, hdefined⟩ :=
      hresolved.induct _ Imports.definedBelow_hereditary path callables hget c hc
    exact ⟨i, hi, origin, library, horigin, hpath.trans hreaches, hdefined⟩

end Callables

/-- **Resolution ends, call by call in good order, and its result is closed.** Without any bound on
the depth there is one run through the imports of a program, and it has the result that the program
is compiled with. No call on the way has a library on the chain twice, leaves the chain other than
it found it or changes a finished list. And whatever action of a library is in the result, its
library is finished, stores it at its position, and is never looked up in vain. -/
theorem Imports.ofProgram_ends_closed (documents : Documents) (p : Program) :
    (∃ imported last requests,
        Run documents "" p.libraryImports .start imported last requests ∧
        (∀ imported' last' requests', Run documents "" p.libraryImports .start imported' last'
          requests' → imported' = imported ∧ last' = last ∧ requests' = requests) ∧
        (Imports.ofProgram documents p).1 = distinct [] imported ∧
        (Callables.ofProgram documents p).libraries = last.finished ∧ last.chain = [] ∧
        ∀ q ∈ requests, q.Orderly) ∧
      ∀ c path, (c ∈ (Callables.ofProgram documents p).program ∨
          ∃ entry ∈ (Callables.ofProgram documents p).libraries, c ∈ entry.2) →
        c.origin = .library path →
        path ∈ Dict.keys (Callables.ofProgram documents p).libraries ∧
          (∃ library, Dict.get? documents.entries path = some library ∧
            library.actions[c.index]? = some c.action) ∧
          Dict.get? (Callables.ofProgram documents p).libraries path =
            some ((Callables.ofProgram documents p).visibleFrom (.library path)) := by
  constructor
  · obtain ⟨requests, hrun⟩ := collect_run documents.size [] "" p.libraryImports []
      (bounded_nil documents)
    obtain ⟨-, hchain, -, horderly⟩ := hrun.orderly Resolver.sound_start
    exact ⟨_, _, requests, hrun, fun _ _ _ hother => hrun.deterministic hother, rfl, rfl, hchain,
      horderly⟩
  · intro c path hc horigin
    obtain ⟨i, hi, origin, library, horigin', hreaches, hlibrary, haction⟩ :=
      Callables.definedBelow_of_mem hc (by simp [horigin])
    obtain rfl : path = origin := by simpa [horigin] using horigin'
    -- The library is reached from an import of the program, and it is there, so it was finished.
    have hkey : path ∈ Dict.keys (Callables.ofProgram documents p).libraries :=
      (ofProgram_resolved documents p).mem_keys_iff.mpr
        ⟨Option.isSome_of_eq_some hlibrary, i, hi, hreaches⟩
    refine ⟨hkey, ⟨library, ?_, haction⟩, ?_⟩
    · have hnormal := hreaches.normalise_eq (Path.normalise_resolve "" i.path)
      rw [Documents.resolve?, hnormal] at hlibrary
      exact hlibrary
    · obtain ⟨list, hlist⟩ := Dict.exists_of_mem_keys hkey
      rw [Callables.visibleFrom, hlist]
      rfl

end Cuesheet
