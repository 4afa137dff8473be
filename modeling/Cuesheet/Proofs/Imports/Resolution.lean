import Cuesheet.Library.Callable
import Cuesheet.Proofs.Dict
import Cuesheet.Proofs.Path
import Mathlib.Data.List.Perm.Subperm
import Mathlib.Logic.Relation

/-!
# Resolving imports

Libraries are resolved depth first. While one is being resolved it is on the chain, and what it
shows to an import is its own definitions; once it is finished, it shows its finished list. This
file says what resolution does, once and for all: a finished list is made of what the library's
imports select from the lists that were **shown** at the time, and of its own definitions
(`Listed`); lists that are finished never change (`Kept`); nothing on the chain is finished
(`Grown.pending`); and every library that a finished one imports is finished in the end.

The bound on the depth is never felt. The libraries on the chain are different documents, and there
are no more of those than the bound allows.

`Imports.ofProgram_resolved` collects these facts for a program. Later proofs use them, and the
induction `Resolved.induct` over the order in which libraries are finished, and do not open
`Imports.offered` again.
-/

set_option autoImplicit false

namespace Cuesheet

namespace Documents

/-- The library at `importer` imports from `target`. -/
def Edge (documents : Documents) (importer target : String) : Prop :=
  ∃ library i, documents.resolve? importer = some library ∧ i ∈ library.imports ∧
    Path.resolve importer i.path = target

/-- Imports lead from the one library to the other. -/
abbrev Reaches (documents : Documents) : String → String → Prop :=
  Relation.ReflTransGen documents.Edge

/-- Documents are kept under normalised paths, so a normalised path that finds a document is one of
its keys. -/
theorem mem_paths {documents : Documents} {path : String} {library : Library}
    (hpath : Path.normalise path = path) (h : documents.resolve? path = some library) :
    path ∈ documents.paths := by
  rw [resolve?, hpath] at h
  exact Dict.mem_keys_of_get? h

end Documents

namespace Imports

/-! ## What imports are shown -/

/-- What the library at `path` shows to an import while `chain` is being resolved. -/
def shown (documents : Documents) (chain : List String) (finished : Finished) (path : String) :
    List Callable :=
  match documents.resolve? path with
  | none => []
  | some library =>
    if path ∈ chain then library.definitions path else (Dict.get? finished path).getD []

/-- What the library shows to imports below the chain will not change any more. -/
def Settled (documents : Documents) (chain : List String) (finished : Finished) (path : String) :
    Prop :=
  (documents.resolve? path).isSome → path ∈ chain ∨ path ∈ Dict.keys finished

/-- Finished lists stay as they are. -/
def Kept (before after : Finished) : Prop :=
  ∀ path callables, Dict.get? before path = some callables →
    Dict.get? after path = some callables

section

variable {documents : Documents} {chain : List String} {before after : Finished} {path : String}

theorem Kept.mem_keys (h : Kept before after) (hpath : path ∈ Dict.keys before) :
    path ∈ Dict.keys after := by
  obtain ⟨callables, hget⟩ := Dict.exists_of_mem_keys hpath
  exact Dict.mem_keys_of_get? (h path callables hget)

theorem Kept.set (hnew : path ∉ Dict.keys before) (callables : List Callable) :
    Kept before (Dict.set before path callables) := by
  intro other list hget
  have hne : other ≠ path := by
    rintro rfl
    exact hnew (Dict.mem_keys_of_get? hget)
  rw [Dict.get?_set_of_ne _ _ hne]
  exact hget

theorem Settled.kept (h : Settled documents chain before path) (hkept : Kept before after) :
    Settled documents chain after path :=
  fun hlibrary => (h hlibrary).imp_right hkept.mem_keys

/-- What is settled stays the same while more libraries are finished. So what an import was shown
when it was resolved can still be read off the finished lists at the end. -/
theorem shown_kept (h : Settled documents chain before path) (hkept : Kept before after) :
    shown documents chain after path = shown documents chain before path := by
  unfold shown
  cases hlibrary : documents.resolve? path with
  | none => rfl
  | some library =>
    by_cases hchain : path ∈ chain
    · simp only [if_pos hchain]
    · have hkey := (h (Option.isSome_of_eq_some hlibrary)).resolve_left hchain
      obtain ⟨callables, hget⟩ := Dict.exists_of_mem_keys hkey
      simp only [if_neg hchain, hget, hkept path callables hget]

theorem shown_of_absent {finished : Finished} (h : documents.resolve? path = none) :
    shown documents chain finished path = [] := by
  rw [shown, h]

theorem shown_of_mem {finished : Finished} {library : Library}
    (hlibrary : documents.resolve? path = some library) (hchain : path ∈ chain) :
    shown documents chain finished path = library.definitions path := by
  rw [shown, hlibrary]
  exact if_pos hchain

theorem shown_of_get? {finished : Finished} {callables : List Callable}
    (hknown : (documents.resolve? path).isSome) (hchain : path ∉ chain)
    (hget : Dict.get? finished path = some callables) :
    shown documents chain finished path = callables := by
  obtain ⟨library, hlibrary⟩ := Option.isSome_iff_exists.mp hknown
  rw [shown, hlibrary]
  simp only [if_neg hchain, hget, Option.getD_some]

/-- A library shows nothing, its own definitions or its finished list. -/
theorem shown_cases (documents : Documents) (chain : List String) (finished : Finished)
    (path : String) :
    shown documents chain finished path = [] ∨
      (∃ library, documents.resolve? path = some library ∧ path ∈ chain ∧
        shown documents chain finished path = library.definitions path) ∨
      (path ∉ chain ∧ ∃ callables, Dict.get? finished path = some callables ∧
        shown documents chain finished path = callables) := by
  unfold shown
  cases hlibrary : documents.resolve? path with
  | none => exact .inl rfl
  | some library =>
    by_cases hchain : path ∈ chain
    · exact .inr (.inl ⟨library, rfl, hchain, if_pos hchain⟩)
    · cases hget : Dict.get? finished path with
      | none => exact .inl (by simp only [if_neg hchain, Option.getD_none])
      | some callables =>
        exact .inr (.inr ⟨hchain, callables, rfl, by simp only [if_neg hchain, Option.getD_some]⟩)

/-- What holds of definitions and of finished lists holds of whatever is shown. This is the step of
most inductions over finished lists. -/
theorem shown_holds {P : List Callable → Prop} {finished : Finished} (hnil : P [])
    (hown : ∀ path library, documents.resolve? path = some library → P (library.definitions path))
    (hfinished : ∀ path callables, Dict.get? finished path = some callables → P callables)
    (chain : List String) (path : String) : P (shown documents chain finished path) := by
  obtain h | ⟨library, hlibrary, -, h⟩ | ⟨-, callables, hget, h⟩ :=
    shown_cases documents chain finished path
  · rw [h]
    exact hnil
  · rw [h]
    exact hown path library hlibrary
  · rw [h]
    exact hfinished path callables hget

end

/-! ## Finished lists -/

/-- The list of a library that was resolved below the chain: its imports, then its definitions. -/
structure Listed (documents : Documents) (finished : Finished) (chain : List String)
    (path : String) (callables : List Callable) : Prop where
  fresh : path ∉ chain
  reaches : ∀ k ∈ chain, documents.Reaches k path
  made : ∃ library, documents.resolve? path = some library ∧
    (∀ i ∈ library.imports,
      Settled documents (path :: chain) finished (Path.resolve path i.path)) ∧
    callables = library.imports.flatMap (fun i => select i.actions
      (shown documents (path :: chain) finished (Path.resolve path i.path))) ++
        library.definitions path

theorem Listed.parts {documents : Documents} {finished : Finished} {chain : List String}
    {path : String} {callables : List Callable} {library : Library}
    (h : Listed documents finished chain path callables)
    (hlibrary : documents.resolve? path = some library) :
    (∀ i ∈ library.imports,
      Settled documents (path :: chain) finished (Path.resolve path i.path)) ∧
    callables = library.imports.flatMap (fun i => select i.actions
      (shown documents (path :: chain) finished (Path.resolve path i.path))) ++
        library.definitions path := by
  obtain ⟨other, hother, hparts⟩ := h.made
  rw [hlibrary, Option.some.injEq] at hother
  exact hother ▸ hparts

/-- The property holds of a list whenever it holds of the lists that were finished before. -/
def Hereditary (documents : Documents) (I : String → List Callable → Prop) : Prop :=
  ∀ finished chain path callables,
    (∀ other list, Dict.get? finished other = some list → I other list) →
    Listed documents finished chain path callables → I path callables

/-- A list that was made from the finished lists of that time can be made from those of any later
time. -/
theorem Listed.kept {documents : Documents} {before after : Finished} {chain : List String}
    {path : String} {callables : List Callable} (h : Listed documents before chain path callables)
    (hkept : Kept before after) : Listed documents after chain path callables := by
  obtain ⟨library, hlibrary, hsettled, hlist⟩ := h.made
  refine ⟨h.fresh, h.reaches, library, hlibrary, fun i hi => (hsettled i hi).kept hkept, ?_⟩
  rw [hlist]
  congr 1
  refine List.flatMap_congr fun i hi => ?_
  rw [shown_kept (hsettled i hi) hkept]

/-- A stretch of resolution below a chain. Whatever it finishes was resolved below that chain, and
below libraries that are finished too. `holds` is the induction principle that comes with it: since
libraries are finished one after another, a hereditary property passes from the lists that were
there to all of them. -/
structure Grown (documents : Documents) (chain : List String) (before after : Finished) :
    Prop where
  kept : Kept before after
  pending : ∀ k ∈ chain, k ∉ Dict.keys after
  listed : ∀ path callables, Dict.get? after path = some callables →
    Dict.get? before path = none → ∃ above, chain ⊆ above ∧
      (∀ k ∈ above, k ∈ chain ∨ k ∈ Dict.keys after) ∧
      Listed documents after above path callables
  holds : ∀ I, Hereditary documents I →
    (∀ path callables, Dict.get? before path = some callables → I path callables) →
    ∀ path callables, Dict.get? after path = some callables → I path callables

theorem Grown.refl {documents : Documents} {chain : List String} {finished : Finished}
    (h : ∀ k ∈ chain, k ∉ Dict.keys finished) : Grown documents chain finished finished where
  kept _ _ hget := hget
  pending := h
  listed path callables hget hnone := by
    rw [hget] at hnone
    exact absurd hnone (by simp)
  holds _ _ hbefore := hbefore

/-- Stretches follow one another. Lists of the first one are carried over to the end by
`Listed.kept`. -/
theorem Grown.trans {documents : Documents} {chain : List String} {first second third : Finished}
    (h : Grown documents chain first second) (h' : Grown documents chain second third) :
    Grown documents chain first third where
  kept path callables hget := h'.kept _ _ (h.kept _ _ hget)
  pending := h'.pending
  listed path callables hget hnone := by
    cases hsecond : Dict.get? second path with
    | none => exact h'.listed path callables hget hsecond
    | some list =>
      have heq : list = callables :=
        Option.some.inj ((h'.kept path list hsecond).symm.trans hget)
      subst heq
      obtain ⟨above, hchain, habove, hlisted⟩ := h.listed path list hsecond hnone
      exact ⟨above, hchain, fun k hk => (habove k hk).imp_right h'.kept.mem_keys,
        hlisted.kept h'.kept⟩
  holds I hI hfirst := h'.holds I hI (h.holds I hI hfirst)

theorem Grown.known {documents : Documents} {chain : List String} {before after : Finished}
    (h : Grown documents chain before after)
    (hbefore : ∀ path ∈ Dict.keys before, (documents.resolve? path).isSome) :
    ∀ path ∈ Dict.keys after, (documents.resolve? path).isSome := by
  intro path hpath
  by_cases hold : path ∈ Dict.keys before
  · exact hbefore path hold
  · obtain ⟨callables, hget⟩ := Dict.exists_of_mem_keys hpath
    obtain ⟨above, -, -, hlisted⟩ :=
      h.listed path callables hget (Dict.get?_eq_none_iff.mpr hold)
    obtain ⟨library, hlibrary, -⟩ := hlisted.made
    exact Option.isSome_of_eq_some hlibrary

/-! ## One import and several -/

/-- A chain with room below it for every document that is not on it. -/
structure Bounded (documents : Documents) (depth : Nat) (chain : List String) : Prop where
  nodup : chain.Nodup
  known : ∀ k ∈ chain, k ∈ documents.paths
  size : documents.size ≤ depth + chain.length

/-- A chain of different documents that is not full leaves room for one more. This is where the
bound on the depth is shown not to matter: it only runs out when all documents are on the chain. -/
theorem Bounded.push {documents : Documents} {depth : Nat} {chain : List String} {path : String}
    (h : Bounded documents depth chain) (hpath : path ∈ documents.paths) (hfresh : path ∉ chain) :
    ∃ below, depth = below + 1 ∧ Bounded documents below (path :: chain) := by
  have hnodup : (path :: chain).Nodup := List.nodup_cons.mpr ⟨hfresh, h.nodup⟩
  have hknown : ∀ k ∈ path :: chain, k ∈ documents.paths := by
    intro k hk
    rcases List.mem_cons.mp hk with rfl | hk
    · exact hpath
    · exact h.known k hk
  have hlength := (List.subperm_of_subset hnodup hknown).length_le
  have hsize : documents.paths.length = documents.size := by
    simp [Documents.paths, Documents.size, Dict.keys]
  have hbound := h.size
  rw [List.length_cons, hsize] at hlength
  refine ⟨depth - 1, by omega, hnodup, hknown, ?_⟩
  rw [List.length_cons]
  omega

/-- With no depth left, every document is on the chain. So a library that is answered with its own
definitions for lack of depth would have been answered with them anyway. -/
theorem Bounded.mem_chain {documents : Documents} {depth : Nat} {chain : List String}
    {path : String} (h : Bounded documents depth chain) (hpath : path ∈ documents.paths)
    (hshown : path ∈ chain ∨ depth = 0) : path ∈ chain := by
  by_contra hfresh
  obtain ⟨below, hdepth, -⟩ := h.push hpath hfresh
  have hzero := hshown.resolve_left hfresh
  omega

/-- What resolution starts from: no list is finished of a library on the chain or of one that is
not there. -/
structure Ready (documents : Documents) (chain : List String) (finished : Finished) : Prop where
  pending : ∀ k ∈ chain, k ∉ Dict.keys finished
  known : ∀ path ∈ Dict.keys finished, (documents.resolve? path).isSome

theorem Grown.ready {documents : Documents} {chain : List String} {before after : Finished}
    (h : Grown documents chain before after) (hbefore : Ready documents chain before) :
    Ready documents chain after :=
  ⟨h.pending, h.known hbefore.known⟩

/-- What is true after the library at `path` was asked for. Everything that is finished on the way,
but for the library itself, is resolved below it. -/
structure Answered (documents : Documents) (chain : List String) (before : Finished)
    (path : String) (answer : List Callable × Finished) : Prop where
  grown : Grown documents chain before answer.2
  settled : Settled documents chain answer.2 path
  answer_eq : answer.1 = shown documents chain answer.2 path
  reached : ∀ other ∈ Dict.keys answer.2, other ∈ Dict.keys before ∨ documents.Reaches path other
  below : ∀ other list, Dict.get? answer.2 other = some list → Dict.get? before other = none →
    (other = path ∧ Listed documents answer.2 chain other list) ∨
      ∃ above, path ∈ above ∧ Listed documents answer.2 above other list

/-- What is true after several imports of a document. -/
structure Collected (documents : Documents) (chain : List String) (before : Finished)
    (importer : String) (imports : List LibraryImport) (answer : List Callable × Finished) :
    Prop where
  grown : Grown documents chain before answer.2
  settled : ∀ i ∈ imports, Settled documents chain answer.2 (Path.resolve importer i.path)
  answer_eq : answer.1 = imports.flatMap fun i =>
    select i.actions (shown documents chain answer.2 (Path.resolve importer i.path))
  reached : ∀ other ∈ Dict.keys answer.2, other ∈ Dict.keys before ∨
    ∃ i ∈ imports, documents.Reaches (Path.resolve importer i.path) other

/-- Imports are worked through one after another. What `offer` does is an assumption, so that the
recursion of `offered` can use this for its own calls. -/
theorem collect_collected {documents : Documents} {chain : List String} {importer : String}
    {offer : Finished → String → List Callable × Finished} :
    ∀ (imports : List LibraryImport) (before : Finished),
      (∀ i ∈ imports, ∀ finished, Ready documents chain finished →
        Answered documents chain finished (Path.resolve importer i.path)
          (offer finished (Path.resolve importer i.path))) →
      Ready documents chain before →
      Collected documents chain before importer imports (collect offer importer imports before)
  | [], before, _, hready =>
    ⟨.refl hready.pending, by simp, by simp [collect], fun _ hother => .inl hother⟩
  | i :: rest, before, hoffer, hready => by
    have hfirst := hoffer i List.mem_cons_self before hready
    have hrest := collect_collected rest (offer before (Path.resolve importer i.path)).2
      (fun j hj => hoffer j (List.mem_cons_of_mem _ hj)) (hfirst.grown.ready hready)
    -- What the first import was shown is settled, so it looks the same when the others are done.
    refine ⟨hfirst.grown.trans hrest.grown, ?_, ?_, ?_⟩
    · intro j hj
      rcases List.mem_cons.mp hj with rfl | hj
      · exact hfirst.settled.kept hrest.grown.kept
      · exact hrest.settled j hj
    · rw [List.flatMap_cons]
      refine congrArg₂ _ ?_ hrest.answer_eq
      rw [hfirst.answer_eq]
      exact congrArg _ (shown_kept hfirst.settled hrest.grown.kept).symm
    · intro other hother
      rcases hrest.reached other hother with hmiddle | ⟨j, hj, hreaches⟩
      · rcases hfirst.reached other hmiddle with hbefore | hreaches
        · exact .inl hbefore
        · exact .inr ⟨i, List.mem_cons_self, hreaches⟩
      · exact .inr ⟨j, List.mem_cons_of_mem _ hj, hreaches⟩

/-- A library is finished after everything below it. Then it leaves the chain, so the chain below
which something was resolved may now have a finished library on it. -/
theorem Grown.visited {documents : Documents} {chain : List String} {before done : Finished}
    {path : String} {callables : List Callable}
    (h : Grown documents (path :: chain) before done)
    (hlisted : Listed documents done chain path callables) :
    Grown documents chain before (Dict.set done path callables) := by
  have hset := Kept.set (h.pending path List.mem_cons_self) callables
  have hkey : path ∈ Dict.keys (Dict.set done path callables) :=
    Dict.mem_keys_of_get? (Dict.get?_set done path callables)
  refine ⟨?_, ?_, ?_, ?_⟩
  · intro other list hother
    exact hset other list (h.kept other list hother)
  · intro k hk hmem
    have hne : k ≠ path := fun e => hlisted.fresh (e ▸ hk)
    rw [← Dict.isSome_get?_iff, Dict.get?_set_of_ne _ _ hne, Dict.isSome_get?_iff] at hmem
    exact h.pending k (List.mem_cons_of_mem _ hk) hmem
  · -- What was finished below the library was finished below a chain with the library on it. The
    -- library is finished now, so this is still a chain of pending and finished ones.
    intro other list hother hbefore
    rcases Dict.get?_set_cases hother with ⟨rfl, rfl⟩ | hdone
    · exact ⟨chain, fun _ hk => hk, fun _ hk => .inl hk, hlisted.kept hset⟩
    · obtain ⟨above, hchain, habove, hlist⟩ := h.listed other list hdone hbefore
      refine ⟨above, fun _ hk => hchain (List.mem_cons_of_mem _ hk), fun k hk => ?_,
        hlist.kept hset⟩
      rcases habove k hk with hk | hk
      · rcases List.mem_cons.mp hk with rfl | hk
        · exact .inr hkey
        · exact .inl hk
      · exact .inr (hset.mem_keys hk)
  · intro I hI hbefore other list hother
    have hdone := h.holds I hI hbefore
    rcases Dict.get?_set_cases hother with ⟨rfl, rfl⟩ | hold
    · exact hI done chain other _ hdone hlisted
    · exact hdone other list hold

/-- A library whose imports are resolved below it is finished with what they bring in and its own
definitions. -/
theorem Collected.visited {documents : Documents} {chain : List String} {before done : Finished}
    {path : String} {library : Library} {imported : List Callable}
    (hlibrary : documents.resolve? path = some library) (hfresh : path ∉ chain)
    (hreaches : ∀ k ∈ chain, documents.Reaches k path)
    (h : Collected documents (path :: chain) before path library.imports (imported, done)) :
    Answered documents chain before path (imported ++ library.definitions path,
      Dict.set done path (imported ++ library.definitions path)) := by
  have hset := Kept.set (h.grown.pending path List.mem_cons_self)
    (imported ++ library.definitions path)
  have hget := Dict.get?_set done path (imported ++ library.definitions path)
  -- The list is made from what was shown while the library itself was on the chain.
  have hlisted : Listed documents done chain path (imported ++ library.definitions path) :=
    ⟨hfresh, hreaches, library, hlibrary, h.settled, congrArg (· ++ _) h.answer_eq⟩
  refine ⟨h.grown.visited hlisted, fun _ => .inr (Dict.mem_keys_of_get? hget), ?_, ?_, ?_⟩
  · exact (shown_of_get? (Option.isSome_of_eq_some hlibrary) hfresh hget).symm
  · intro other hother
    obtain ⟨list, hlist⟩ := Dict.exists_of_mem_keys hother
    rcases Dict.get?_set_cases hlist with ⟨rfl, -⟩ | hdone
    · exact .inr .refl
    · rcases h.reached other (Dict.mem_keys_of_get? hdone) with hold | ⟨i, hi, hreach⟩
      · exact .inl hold
      · exact .inr (hreach.head ⟨library, i, hlibrary, hi, rfl⟩)
  · intro other list hother hbefore
    rcases Dict.get?_set_cases hother with ⟨rfl, rfl⟩ | hdone
    · exact .inl ⟨rfl, hlisted.kept hset⟩
    · obtain ⟨above, hchain, -, hlist⟩ := h.grown.listed other list hdone hbefore
      exact .inr ⟨above, hchain List.mem_cons_self, hlist.kept hset⟩

/-- The four ways in which a library is offered: it is finished, it is not there, it is being
resolved and shows its own definitions, or it is resolved now. -/
theorem offered_cases (documents : Documents) (depth : Nat) (chain : List String)
    (finished : Finished) (path : String) :
    (∃ done, Dict.get? finished path = some done ∧
      offered documents depth chain finished path = (done, finished)) ∨
    (Dict.get? finished path = none ∧ documents.resolve? path = none ∧
      offered documents depth chain finished path = ([], finished)) ∨
    (∃ library, Dict.get? finished path = none ∧ documents.resolve? path = some library ∧
      (path ∈ chain ∨ depth = 0) ∧
      offered documents depth chain finished path = (library.definitions path, finished)) ∨
    (∃ library below imported done, depth = below + 1 ∧ Dict.get? finished path = none ∧
      documents.resolve? path = some library ∧ path ∉ chain ∧
      collect (offered documents below (path :: chain)) path library.imports finished =
        (imported, done) ∧
      offered documents depth chain finished path =
        (imported ++ library.definitions path,
          Dict.set done path (imported ++ library.definitions path))) := by
  unfold offered
  cases hnew : Dict.get? finished path with
  | some done => exact .inl ⟨done, rfl, rfl⟩
  | none =>
    cases hlibrary : documents.resolve? path with
    | none => exact .inr (.inl ⟨rfl, rfl, rfl⟩)
    | some library =>
      by_cases hchain : path ∈ chain
      · exact .inr (.inr (.inl ⟨library, rfl, rfl, .inl hchain, by simp only [if_pos hchain]⟩))
      · cases depth with
        | zero => exact .inr (.inr (.inl ⟨library, rfl, rfl, .inr rfl, by simp only [ite_self]⟩))
        | succ below =>
          refine .inr (.inr (.inr ⟨library, below, _, _, rfl, rfl, rfl, hchain, rfl, ?_⟩))
          simp only [if_neg hchain]

/-- **Asking for a library does what `Answered` says**, whatever is on the chain and whatever is
finished. By induction on the depth. In three of the four cases nothing is resolved and only the
answer has to be looked at; in the fourth the imports are resolved below the library, with less
depth. -/
theorem offered_answered {documents : Documents} (depth : Nat) :
    ∀ (chain : List String) (before : Finished) (path : String),
      Bounded documents depth chain → Path.normalise path = path →
      (∀ k ∈ chain, documents.Reaches k path) → Ready documents chain before →
      Answered documents chain before path (offered documents depth chain before path) := by
  induction depth using Nat.strongRecOn with
  | ind depth ih =>
    intro chain before path hbounded hpath hreaches hready
    -- If nothing is finished by the call, all that is left to say is that the answer is what is
    -- shown.
    have hunchanged : ∀ answer : List Callable, Settled documents chain before path →
        answer = shown documents chain before path →
        Answered documents chain before path (answer, before) := by
      intro answer hsettled hshown
      refine ⟨.refl hready.pending, hsettled, hshown, fun _ hother => .inl hother, ?_⟩
      intro other list hother hnone
      rw [hother] at hnone
      exact absurd hnone (by simp)
    obtain ⟨done, hdone, heq⟩ | ⟨-, habsent, heq⟩ | ⟨library, -, hlibrary, hshown, heq⟩ |
      ⟨library, below, imported, done, hdepth, hnew, hlibrary, hfresh, hcollect, heq⟩ :=
      offered_cases documents depth chain before path
    · have hkey : path ∈ Dict.keys before := Dict.mem_keys_of_get? hdone
      have hfresh : path ∉ chain := fun hchain => hready.pending path hchain hkey
      rw [heq]
      exact hunchanged done (fun _ => .inr hkey)
        (shown_of_get? (hready.known path hkey) hfresh hdone).symm
    · rw [heq]
      exact hunchanged [] (fun h => absurd h (by simp [habsent])) (shown_of_absent habsent).symm
    · have hchain := hbounded.mem_chain (Documents.mem_paths hpath hlibrary) hshown
      rw [heq]
      exact hunchanged _ (fun _ => .inl hchain) (shown_of_mem hlibrary hchain).symm
    · -- The library is resolved now: it goes on the chain, and what it imports is asked for below
      -- it.
      obtain ⟨below', hdepth', hbelow⟩ :=
        hbounded.push (Documents.mem_paths hpath hlibrary) hfresh
      have hsame : below' = below := by omega
      subst hsame
      have hready' : Ready documents (path :: chain) before := by
        refine ⟨fun k hk => ?_, hready.known⟩
        rcases List.mem_cons.mp hk with rfl | hk
        · exact Dict.get?_eq_none_iff.mp hnew
        · exact hready.pending k hk
      -- Everything on the chain leads to the library, and so to what it imports.
      have hoffers : ∀ i ∈ library.imports, ∀ finished, Ready documents (path :: chain) finished →
          Answered documents (path :: chain) finished (Path.resolve path i.path)
            (offered documents below' (path :: chain) finished (Path.resolve path i.path)) := by
        intro i hi finished hfinished
        have hedge : documents.Edge path (Path.resolve path i.path) :=
          ⟨library, i, hlibrary, hi, rfl⟩
        refine ih below' (by omega) _ finished _ hbelow (Path.normalise_resolve _ _) ?_ hfinished
        intro k hk
        rcases List.mem_cons.mp hk with rfl | hk
        · exact .single hedge
        · exact (hreaches k hk).tail hedge
      have hcollected := collect_collected library.imports before hoffers hready'
      rw [hcollect] at hcollected
      rw [heq]
      exact hcollected.visited hlibrary hfresh hreaches

/-! ## Lists are only ever set -/

theorem collect_preserves {P : Finished → Prop} {importer : String}
    {offer : Finished → String → List Callable × Finished}
    (hoffer : ∀ finished path, P finished → P (offer finished path).2) :
    ∀ (imports : List LibraryImport) (before : Finished), P before →
      P (collect offer importer imports before).2
  | [], _, h => h
  | i :: rest, before, h =>
    collect_preserves hoffer rest _ (hoffer before (Path.resolve importer i.path) h)

/-- What setting a list keeps, resolution keeps, whatever the chain and the depth. -/
theorem offered_preserves {documents : Documents} {P : Finished → Prop}
    (hset : ∀ finished path callables, P finished → P (Dict.set finished path callables))
    (depth : Nat) : ∀ (chain : List String) (before : Finished) (path : String), P before →
      P (offered documents depth chain before path).2 := by
  induction depth using Nat.strongRecOn with
  | ind depth ih =>
    intro chain before path hbefore
    obtain ⟨done, -, heq⟩ | ⟨-, -, heq⟩ | ⟨library, -, -, -, heq⟩ |
      ⟨library, below, imported, done, hdepth, -, -, -, hcollect, heq⟩ :=
      offered_cases documents depth chain before path
    · rw [heq]
      exact hbefore
    · rw [heq]
      exact hbefore
    · rw [heq]
      exact hbefore
    · -- Only the last case sets a list, and the imports before it keep the property by induction.
      have hdone : P (collect (offered documents below (path :: chain)) path library.imports
          before).2 :=
        collect_preserves (ih below (by omega) (path :: chain)) library.imports before hbefore
      rw [hcollect] at hdone
      rw [heq]
      exact hset _ _ _ hdone

/-! ## The imports of a program -/

/-- What is true of the libraries that the imports of a program finish. -/
structure Resolved (documents : Documents) (imports : List LibraryImport) (finished : Finished) :
    Prop where
  listed : ∀ path callables, Dict.get? finished path = some callables →
    ∃ above, (∀ k ∈ above, k ∈ Dict.keys finished) ∧
      Listed documents finished above path callables
  settled : ∀ i ∈ imports, (documents.resolve? (Path.resolve "" i.path)).isSome →
    Path.resolve "" i.path ∈ Dict.keys finished
  reached : ∀ path ∈ Dict.keys finished, ∃ i ∈ imports,
    documents.Reaches (Path.resolve "" i.path) path
  /-- An induction over the order in which libraries are finished. -/
  induct : ∀ I, Hereditary documents I → ∀ path callables,
    Dict.get? finished path = some callables → I path callables

theorem bounded_nil (documents : Documents) : Bounded documents documents.size [] :=
  ⟨.nil, by simp, by simp⟩

theorem ready_nil (documents : Documents) : Ready documents [] [] :=
  ⟨by simp, by simp [Dict.keys]⟩

/-- A program resolves its imports with an empty chain, nothing finished and room for all
documents. -/
theorem ofProgram_collected (documents : Documents) (p : Program) :
    Collected documents [] [] "" p.libraryImports
      (collect (offered documents documents.size []) "" p.libraryImports []) :=
  collect_collected p.libraryImports []
    (fun _ _ finished hfinished => offered_answered _ [] finished _ (bounded_nil documents)
      (Path.normalise_resolve _ _) (by simp) hfinished)
    (ready_nil documents)

/-- **The imports of a program are resolved.** These are the facts that later proofs start from. -/
theorem ofProgram_resolved (documents : Documents) (p : Program) :
    Resolved documents p.libraryImports (ofProgram documents p).2 := by
  have h := ofProgram_collected documents p
  refine ⟨?_, ?_, ?_, ?_⟩
  · intro path callables hget
    obtain ⟨above, -, habove, hlisted⟩ := h.grown.listed path callables hget rfl
    exact ⟨above, fun k hk => (habove k hk).resolve_left (by simp), hlisted⟩
  · intro i hi hlibrary
    exact (h.settled i hi hlibrary).resolve_left (by simp)
  · intro path hpath
    exact (h.reached path hpath).resolve_left (by simp [Dict.keys])
  · intro I hI
    exact h.grown.holds I hI (fun _ _ hget => absurd hget (by simp))

/-- What a program imports: each import selects from the finished list of its library, and of
several actions with one name the first is kept. -/
theorem ofProgram_imports (documents : Documents) (p : Program) :
    (ofProgram documents p).1 = distinct [] (p.libraryImports.flatMap fun i => select i.actions
      ((Dict.get? (ofProgram documents p).2 (Path.resolve "" i.path)).getD [])) := by
  have h := ofProgram_collected documents p
  have hshown : ∀ path, shown documents [] (ofProgram documents p).2 path =
      (Dict.get? (ofProgram documents p).2 path).getD [] := by
    intro path
    unfold shown
    cases hlibrary : documents.resolve? path with
    | some library => simp
    | none =>
      have habsent : path ∉ Dict.keys (ofProgram documents p).2 := fun hpath => by
        have hknown := h.grown.known (ready_nil documents).known path hpath
        rw [hlibrary] at hknown
        exact absurd hknown (by simp)
      rw [Dict.get?_eq_none_iff.mpr habsent]
      rfl
  simp only [← hshown]
  exact congrArg (distinct []) h.answer_eq

/-- No library is finished twice, as lists are only ever set under their names. -/
theorem ofProgram_keys_nodup (documents : Documents) (p : Program) :
    (Dict.keys (ofProgram documents p).2).Nodup := by
  apply collect_preserves (P := fun finished => (Dict.keys finished).Nodup)
  · apply offered_preserves
    intro finished path callables h
    exact Dict.nodup_keys_set h path callables
  · exact List.nodup_nil

/-- With a single import, everything but the library it names is resolved below that library. -/
theorem ofProgram_single {documents : Documents} {p : Program} {i : LibraryImport}
    (hp : p.libraryImports = [i]) {path : String} {callables : List Callable}
    (hget : Dict.get? (ofProgram documents p).2 path = some callables) :
    (path = Path.resolve "" i.path ∧
      Listed documents (ofProgram documents p).2 [] path callables) ∨
      ∃ above, Path.resolve "" i.path ∈ above ∧
        Listed documents (ofProgram documents p).2 above path callables := by
  have h := offered_answered documents.size [] [] (Path.resolve "" i.path)
    (bounded_nil documents) (Path.normalise_resolve _ _) (by simp) (ready_nil documents)
  have hfinished : (ofProgram documents p).2 =
      (offered documents documents.size [] [] (Path.resolve "" i.path)).2 := by
    rw [ofProgram, hp]
    rfl
  rw [hfinished] at hget ⊢
  exact h.below path callables hget rfl

namespace Resolved

variable {documents : Documents} {imports : List LibraryImport} {finished : Finished}

theorem known (h : Resolved documents imports finished) {path : String}
    (hpath : path ∈ Dict.keys finished) : (documents.resolve? path).isSome := by
  obtain ⟨callables, hget⟩ := Dict.exists_of_mem_keys hpath
  obtain ⟨above, -, hlisted⟩ := h.listed path callables hget
  obtain ⟨library, hlibrary, -⟩ := hlisted.made
  exact Option.isSome_of_eq_some hlibrary

/-- Whatever a finished library imports is finished. It may have been on the chain when it was
imported, but all of the chain is finished in the end. -/
theorem mem_keys_of_edge (h : Resolved documents imports finished) {path target : String}
    (hpath : path ∈ Dict.keys finished) (hedge : documents.Edge path target)
    (htarget : (documents.resolve? target).isSome) : target ∈ Dict.keys finished := by
  obtain ⟨callables, hget⟩ := Dict.exists_of_mem_keys hpath
  obtain ⟨above, habove, hlisted⟩ := h.listed path callables hget
  obtain ⟨library, i, hlibrary, hi, rfl⟩ := hedge
  obtain ⟨hsettled, -⟩ := hlisted.parts hlibrary
  rcases hsettled i hi htarget with hchain | hkey
  · rcases List.mem_cons.mp hchain with hself | hchain
    · rw [hself]
      exact hpath
    · exact habove _ hchain
  · exact hkey

/-- The libraries that are finished are those that the imports lead to. One direction comes from the
resolver, which only follows imports, and the other one by induction along them. -/
theorem mem_keys_iff (h : Resolved documents imports finished) {path : String} :
    path ∈ Dict.keys finished ↔ (documents.resolve? path).isSome ∧
      ∃ i ∈ imports, documents.Reaches (Path.resolve "" i.path) path := by
  refine ⟨fun hpath => ⟨h.known hpath, h.reached path hpath⟩, ?_⟩
  rintro ⟨hlibrary, i, hi, hreaches⟩
  induction hreaches with
  | refl => exact h.settled i hi hlibrary
  | @tail middle target _ hedge ih =>
    obtain ⟨library, -, hmiddle, -⟩ := id hedge
    exact h.mem_keys_of_edge (ih (Option.isSome_of_eq_some hmiddle)) hedge hlibrary

end Resolved

end Imports

end Cuesheet
