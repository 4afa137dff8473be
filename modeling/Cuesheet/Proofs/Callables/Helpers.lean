import Cuesheet.Proofs.Callables.Definitions
import Mathlib.Data.List.Perm.Subperm

/-!
# Helpers

A helper is an action of a library that the program does not see and that is called from the body
of a library's action that it does see, directly or through other helpers. `Callables.Helper` says
so as a relation. The queue of helpers grows while it is worked through; `Callables.Worked` is that
loop without a bound on its steps. This file proves that the loop ends, that `Callables.helpers` is
what it ends with, and that the helpers it lists are exactly those of the relation, each once.

The queue tells helpers apart by their qualified names. Where action names are free of `#`, two
callables that calls find under one qualified name are one definition, and nothing is lost by that.
-/

set_option autoImplicit false

namespace Cuesheet

/-! ## What a body calls -/

/-- A call of `name` is written in the statement, at any depth. -/
inductive Stmt.Calls (name : String) : Stmt → Prop
  | call {c : Call} (h : c.name = name) : Calls name (.call c)
  | thenBody {condition : Expr} {thenBody : List Stmt} {elseBody : Option (List Stmt)}
      {l : Location} {s : Stmt} (hs : s ∈ thenBody) (h : Calls name s) :
      Calls name (.branch condition thenBody elseBody l)
  | elseBody {condition : Expr} {thenBody elseBody : List Stmt} {l : Location} {s : Stmt}
      (hs : s ∈ elseBody) (h : Calls name s) :
      Calls name (.branch condition thenBody (some elseBody) l)
  | loop {item : String} {collection : Expr} {body : List Stmt} {l : Location} {s : Stmt}
      (hs : s ∈ body) (h : Calls name s) : Calls name (.loop item collection body l)

/-- A call of `name` is written in one of the halves of the action. -/
def Action.Calls (a : Action) (name : String) : Prop :=
  (∃ s ∈ a.body.start, s.Calls name) ∨ ∃ s ∈ a.body.finish, s.Calls name

namespace Stmt

mutual

theorem mem_calledNames_iff {name : String} : ∀ s : Stmt, name ∈ calledNames s ↔ s.Calls name
  | .call c => by
    rw [calledNames, List.mem_singleton]
    exact ⟨fun h => .call h.symm, fun | .call h => h.symm⟩
  | .branch condition thenBody elseBody l => by
    rw [calledNames, List.mem_append, mem_calledNamesIn_iff thenBody,
      mem_calledNamesInElse_iff elseBody]
    constructor
    · rintro (⟨s, hs, h⟩ | ⟨body, rfl, s, hs, h⟩)
      · exact .thenBody hs h
      · exact .elseBody hs h
    · intro h
      cases h with
      | thenBody hs h => exact .inl ⟨_, hs, h⟩
      | elseBody hs h => exact .inr ⟨_, rfl, _, hs, h⟩
  | .loop item collection body l => by
    rw [calledNames, mem_calledNamesIn_iff body]
    exact ⟨fun ⟨_, hs, h⟩ => .loop hs h, fun | .loop hs h => ⟨_, hs, h⟩⟩
  | .declaration d => ⟨fun h => absurd h (by simp [calledNames]), nofun⟩
  | .breakLoop l => ⟨fun h => absurd h (by simp [calledNames]), nofun⟩
  | .continueLoop l => ⟨fun h => absurd h (by simp [calledNames]), nofun⟩

theorem mem_calledNamesIn_iff {name : String} : ∀ body : List Stmt,
    name ∈ calledNamesIn body ↔ ∃ s ∈ body, s.Calls name
  | [] => by simp [calledNamesIn]
  | s :: rest => by
    rw [calledNamesIn, List.mem_append, mem_calledNames_iff s, mem_calledNamesIn_iff rest,
      List.exists_mem_cons_iff]

theorem mem_calledNamesInElse_iff {name : String} : ∀ elseBody : Option (List Stmt),
    name ∈ calledNamesInElse elseBody ↔ ∃ body, elseBody = some body ∧ ∃ s ∈ body, s.Calls name
  | none => by simp [calledNamesInElse]
  | some body => by
    rw [calledNamesInElse, mem_calledNamesIn_iff body]
    simp

end

end Stmt

namespace Callables

/-! ## Helpers as a relation -/

/-- The body of `caller`, an action of a library, calls `helper`, which the program does not
see. -/
structure CallsHelper (callables : Callables) (caller helper : Callable) : Prop where
  library : caller.origin ≠ .program
  called : ∃ name, caller.action.Calls name ∧ callables.find? caller.origin name = some helper
  hidden : ∀ v ∈ callables.program, v.sameDefinition helper = false

/-- A helper: called from an action that the program sees, or from another helper. -/
inductive Helper (callables : Callables) : Callable → Prop
  | visible {v h : Callable} (hv : v ∈ callables.program) (hcall : callables.CallsHelper v h) :
      Helper callables h
  | helper {g h : Callable} (hg : Helper callables g) (hcall : callables.CallsHelper g h) :
      Helper callables h

variable {callables : Callables}

theorem inProgram?_isNone_iff {c : Callable} : (callables.inProgram? c).isNone = true ↔
    ∀ v ∈ callables.program, v.sameDefinition c = false := by
  simp [inProgram?]

theorem mem_helpersCalledBy_iff {caller helper : Callable} :
    helper ∈ callables.helpersCalledBy caller ↔ callables.CallsHelper caller helper := by
  have hcalls : ∀ name, name ∈ Stmt.calledNamesIn caller.action.body.start ++
      Stmt.calledNamesIn caller.action.body.finish ↔ caller.action.Calls name := by
    intro name
    rw [List.mem_append, Stmt.mem_calledNamesIn_iff, Stmt.mem_calledNamesIn_iff, Action.Calls]
  cases horigin : caller.origin with
  | program =>
    rw [helpersCalledBy, horigin]
    exact ⟨fun h => absurd h (by simp), fun h => absurd horigin h.library⟩
  | library path =>
    rw [helpersCalledBy, horigin]
    simp only [List.mem_filterMap, Option.filter_eq_some_iff, hcalls, inProgram?_isNone_iff,
      ← horigin]
    constructor
    · rintro ⟨name, hname, hfound, hhidden⟩
      exact ⟨by simp [horigin], ⟨name, hname, hfound⟩, hhidden⟩
    · rintro ⟨-, ⟨name, hname, hfound⟩, hhidden⟩
      exact ⟨name, hname, hfound, hhidden⟩

/-- Which helpers a body calls is a matter of its definition alone. -/
theorem CallsHelper.of_same {caller other helper : Callable}
    (h : callables.CallsHelper caller helper) (horigin : other.origin = caller.origin)
    (haction : other.action = caller.action) : callables.CallsHelper other helper :=
  ⟨horigin ▸ h.library, by rw [horigin, haction]; exact h.called, h.hidden⟩

/-! ## The queue -/

/-- Some callable of the queue has the qualified name of `c`. -/
def Queued (queue : List Callable) (c : Callable) : Prop :=
  ∃ q ∈ queue, q.qualifiedName = c.qualifiedName

theorem enqueue_cons (queue : List Callable) (c : Callable) (found : List Callable) :
    enqueue queue (c :: found) =
      enqueue (if queue.any (·.qualifiedName = c.qualifiedName) then queue else queue ++ [c])
        found := rfl

/-- What enqueuing does: new callables go to the end, no qualified name stands there twice, and
every callable ends up queued. -/
theorem enqueue_spec : ∀ (found queue : List Callable),
    (queue.map Callable.qualifiedName).Nodup →
    ∃ added, enqueue queue found = queue ++ added ∧ (∀ c ∈ added, c ∈ found) ∧
      ((queue ++ added).map Callable.qualifiedName).Nodup ∧
      ∀ c ∈ found, Queued (queue ++ added) c
  | [], queue, hnodup => ⟨[], by simp [enqueue], by simp, by simpa using hnodup, by simp⟩
  | c :: found, queue, hnodup => by
    rw [enqueue_cons]
    -- A name that is queued already counts for the new callable as well.
    by_cases hc : queue.any (·.qualifiedName = c.qualifiedName) = true
    · rw [if_pos hc]
      obtain ⟨added, heq, hadded, hnames, hqueued⟩ := enqueue_spec found queue hnodup
      refine ⟨added, heq, fun d hd => List.mem_cons_of_mem _ (hadded d hd), hnames, ?_⟩
      intro d hd
      rcases List.mem_cons.mp hd with rfl | hd
      · obtain ⟨q, hq, hname⟩ := List.any_eq_true.mp hc
        exact ⟨q, List.mem_append_left _ hq, by simpa using hname⟩
      · exact hqueued d hd
    · rw [if_neg hc]
      have hfresh : ((queue ++ [c]).map Callable.qualifiedName).Nodup := by
        rw [List.map_append, List.nodup_append]
        refine ⟨hnodup, by simp, ?_⟩
        intro name hname other hother heq
        obtain ⟨q, hq, rfl⟩ := List.mem_map.mp hname
        simp only [List.map_cons, List.map_nil, List.mem_singleton] at hother
        exact hc (List.any_eq_true.mpr ⟨q, hq, by simp [heq, hother]⟩)
      -- The rest is enqueued behind the new one.
      obtain ⟨added, heq, hadded, hnames, hqueued⟩ := enqueue_spec found (queue ++ [c]) hfresh
      rw [List.append_assoc] at heq hnames hqueued
      refine ⟨c :: added, heq, ?_, hnames, ?_⟩
      · intro d hd
        rcases List.mem_cons.mp hd with rfl | hd
        · exact List.mem_cons_self
        · exact List.mem_cons_of_mem _ (hadded d hd)
      · intro d hd
        rcases List.mem_cons.mp hd with rfl | hd
        · exact ⟨d, by simp, rfl⟩
        · exact hqueued d hd

/-- A queue that has been worked through up to position `next`. -/
structure QueueState (callables : Callables) (next : Nat) (queue : List Callable) : Prop where
  helper : ∀ h ∈ queue, callables.Helper h
  distinct : (queue.map Callable.qualifiedName).Nodup
  visible : ∀ v ∈ callables.program, ∀ h, callables.CallsHelper v h → Queued queue h
  worked : ∀ g ∈ queue.take next, ∀ h, callables.CallsHelper g h → Queued queue h

theorem Queued.append {queue : List Callable} {c : Callable} (h : Queued queue c)
    (added : List Callable) : Queued (queue ++ added) c := by
  obtain ⟨q, hq, hname⟩ := h
  exact ⟨q, List.mem_append_left _ hq, hname⟩

/-- Working on one entry keeps the queue in order. New helpers go to the end, so what was worked on
before stays where it is and has nothing new to call. -/
theorem QueueState.step {next : Nat} {queue : List Callable} {c : Callable}
    (h : callables.QueueState next queue) (hc : queue[next]? = some c) :
    callables.QueueState (next + 1) (enqueue queue (callables.helpersCalledBy c)) := by
  obtain ⟨added, heq, hadded, hnames, hqueued⟩ :=
    enqueue_spec (callables.helpersCalledBy c) queue h.distinct
  have hnext : next < queue.length := (List.getElem?_eq_some_iff.mp hc).1
  rw [heq]
  refine ⟨fun d hd => ?_, hnames, fun v hv d hcall => (h.visible v hv d hcall).append added, ?_⟩
  · rcases List.mem_append.mp hd with hd | hd
    · exact h.helper d hd
    · exact .helper (h.helper c (List.mem_of_getElem? hc))
        (mem_helpersCalledBy_iff.mp (hadded d hd))
  · intro g hg d hcall
    rw [List.take_append_of_le_length (by omega), List.take_add_one, hc] at hg
    rcases List.mem_append.mp hg with hg | hg
    · exact (h.worked g hg d hcall).append added
    · have hgc : g = c := by simpa [eq_comm] using hg
      exact hqueued d (mem_helpersCalledBy_iff.mpr (hgc ▸ hcall))

/-- The queue before any of its entries is worked on: what the program's actions call. -/
def firstQueue (callables : Callables) : List Callable :=
  callables.program.foldl (fun queue c => enqueue queue (callables.helpersCalledBy c)) []

theorem firstQueue_state : callables.QueueState 0 callables.firstQueue := by
  -- The fold has passed some of the program's actions; those are the ones that are settled.
  have hfold : ∀ (rest passed queue : List Callable), passed ++ rest = callables.program →
      (∀ h ∈ queue, callables.Helper h) → (queue.map Callable.qualifiedName).Nodup →
      (∀ v ∈ passed, ∀ h, callables.CallsHelper v h → Queued queue h) →
      callables.QueueState 0
        (rest.foldl (fun queue c => enqueue queue (callables.helpersCalledBy c)) queue) := by
    intro rest
    induction rest with
    | nil =>
      intro passed queue hpassed hhelper hdistinct hsettled
      rw [List.append_nil] at hpassed
      exact ⟨hhelper, hdistinct, hpassed ▸ hsettled, by simp⟩
    | cons v rest ih =>
      intro passed queue hpassed hhelper hdistinct hsettled
      obtain ⟨added, heq, hadded, hnames, hqueued⟩ :=
        enqueue_spec (callables.helpersCalledBy v) queue hdistinct
      rw [List.foldl_cons, heq]
      have hv : v ∈ callables.program := by simp [← hpassed]
      refine ih (passed ++ [v]) _ (by simpa using hpassed) ?_ hnames ?_
      · intro d hd
        rcases List.mem_append.mp hd with hd | hd
        · exact hhelper d hd
        · exact .visible hv (mem_helpersCalledBy_iff.mp (hadded d hd))
      · intro u hu d hcall
        rcases List.mem_append.mp hu with hu | hu
        · exact (hsettled u hu d hcall).append added
        · exact hqueued d (mem_helpersCalledBy_iff.mpr (List.mem_singleton.mp hu ▸ hcall))
  exact hfold callables.program [] [] rfl (by simp) (by simp) (by simp)

/-! ## The loop -/

/-- The loop over the queue, as it runs: it ends when no entry is left, and an entry adds what it
calls. There is no bound on the number of steps. -/
inductive Worked (callables : Callables) : Nat → List Callable → List Callable → Prop
  | done {next : Nat} {queue : List Callable} (h : queue[next]? = none) :
      Worked callables next queue queue
  | step {next : Nat} {queue result : List Callable} {c : Callable} (h : queue[next]? = some c)
      (hrest : Worked callables (next + 1) (enqueue queue (callables.helpersCalledBy c)) result) :
      Worked callables next queue result

/-- A run of the loop ends with a queue in which every entry has been worked on. -/
theorem Worked.state {next : Nat} {queue result : List Callable}
    (hrun : callables.Worked next queue result) (h : callables.QueueState next queue) :
    callables.QueueState result.length result := by
  induction hrun with
  | done hnone =>
    have hworked := h.worked
    rw [List.take_of_length_le (List.getElem?_eq_none_iff.mp hnone)] at hworked
    exact ⟨h.helper, h.distinct, h.visible, by rwa [List.take_length]⟩
  | step hc _ ih => exact ih (h.step hc)

theorem Helper.mem_libraries {h : Callable} (hh : callables.Helper h) :
    h ∈ callables.libraries.flatMap (·.2) := by
  have hcalled : ∀ {caller : Callable}, callables.CallsHelper caller h →
      h ∈ callables.libraries.flatMap (·.2) := by
    intro caller hcall
    obtain ⟨name, -, hfound⟩ := hcall.called
    cases horigin : caller.origin with
    | program => exact absurd horigin hcall.library
    | library path =>
      rw [horigin] at hfound
      have hmem := Callable.mem_of_find? hfound
      rw [visibleFrom] at hmem
      cases hget : Dict.get? callables.libraries path with
      | none => rw [hget] at hmem; exact absurd hmem (by simp)
      | some list =>
        rw [hget] at hmem
        exact List.mem_flatMap.mpr ⟨_, Dict.mem_of_get? hget, hmem⟩
  cases hh with
  | visible _ hcall => exact hcalled hcall
  | helper _ hcall => exact hcalled hcall

theorem QueueState.length_le {next : Nat} {queue : List Callable}
    (h : callables.QueueState next queue) : queue.length ≤ callables.helperBound := by
  have hnodup : queue.Nodup := h.distinct.of_map _
  exact (List.subperm_of_subset hnodup fun c hc => (h.helper c hc).mem_libraries).length_le

/-- The bound on the steps is never felt: the loop ends before. -/
theorem reachFrom_worked : ∀ (steps next : Nat) (queue : List Callable),
    callables.QueueState next queue → callables.helperBound ≤ steps + next →
    callables.Worked next queue (callables.reachFrom steps next queue)
  | 0, next, queue, h, hbound => by
    have hlength := h.length_le
    exact .done (List.getElem?_eq_none_iff.mpr (by omega))
  | steps + 1, next, queue, h, hbound => by
    rw [reachFrom]
    cases hc : queue[next]? with
    | none => exact .done hc
    | some c => exact .step hc (reachFrom_worked steps (next + 1) _ (h.step hc) (by omega))

/-- **The loop over the helpers ends, with `helpers`.** The definition counts steps down from a
bound. `Worked` has no bound, so this says that the count is only there to make the recursion go
through. -/
theorem helpers_worked (callables : Callables) :
    callables.Worked 0 callables.firstQueue callables.helpers :=
  reachFrom_worked _ 0 _ firstQueue_state (by omega)

theorem helpers_state (callables : Callables) :
    callables.QueueState callables.helpers.length callables.helpers :=
  callables.helpers_worked.state firstQueue_state

/-! ## Qualified names -/

end Callables

/-- No action of a library has a `#` in its name. -/
def Documents.PlainActions (documents : Documents) : Prop :=
  ∀ entry ∈ documents.entries, ∀ a ∈ entry.2.actions, '#' ∉ a.name.toList

instance (documents : Documents) : Decidable documents.PlainActions :=
  inferInstanceAs (Decidable (∀ entry ∈ documents.entries, ∀ a ∈ entry.2.actions,
    '#' ∉ a.name.toList))

namespace Callable

variable {p : Program} {documents : Documents}

theorem Offered.plain {c : Callable} (hplain : documents.PlainActions)
    (hc : c.Offered p documents) : '#' ∉ c.action.name.toList := by
  obtain ⟨path, horigin⟩ := hc.library
  have hgenuine := hc.genuine
  rw [Genuine, horigin, Program.definition?, Option.bind_eq_some_iff] at hgenuine
  obtain ⟨library, hlibrary, haction⟩ := hgenuine
  exact hplain _ (Dict.mem_of_get? hlibrary) _ (List.mem_of_getElem? haction)

/-- Two callables that calls find under one qualified name are one definition. The name tells the
document, as it can be split at its last separator, and a document has one leading definition of a
name. -/
theorem Offered.same_of_qualifiedName {c d : Callable} (hplain : documents.PlainActions)
    (hc : c.Offered p documents) (hd : d.Offered p documents)
    (h : c.qualifiedName = d.qualifiedName) : c.origin = d.origin ∧ c.index = d.index := by
  obtain ⟨cpath, hcorigin⟩ := hc.library
  obtain ⟨dpath, hdorigin⟩ := hd.library
  rw [qualifiedName, qualifiedName, hcorigin, hdorigin] at h
  obtain ⟨hpath, hname⟩ :=
    Text.eq_of_append_separator_eq (c := '#') (hc.plain hplain) (hd.plain hplain) h
  have horigin : c.origin = d.origin := by rw [hcorigin, hdorigin, hpath]
  exact ⟨horigin, Leading.index_eq hc.genuine hc.leading hd.genuine hd.leading horigin hname⟩

end Callable

namespace Callables

variable {p : Program} {documents : Documents}

theorem CallsHelper.offered {caller helper : Callable}
    (h : (ofProgram documents p).CallsHelper caller helper) : helper.Offered p documents := by
  obtain ⟨name, -, hfound⟩ := h.called
  cases horigin : caller.origin with
  | program => exact absurd horigin h.library
  | library path => exact offered_of_find? (horigin ▸ hfound)

theorem Helper.offered {h : Callable} (hh : (ofProgram documents p).Helper h) :
    h.Offered p documents := by
  cases hh with
  | visible _ hcall => exact hcall.offered
  | helper _ hcall => exact hcall.offered

theorem Helper.same_of_queued {h : Callable} (hplain : documents.PlainActions)
    (hh : (ofProgram documents p).Helper h)
    (hqueued : Queued (ofProgram documents p).helpers h) :
    ∃ q ∈ (ofProgram documents p).helpers, q.origin = h.origin ∧ q.index = h.index := by
  obtain ⟨q, hq, hname⟩ := hqueued
  have hoffered := ((helpers_state _).helper q hq).offered
  exact ⟨q, hq, hoffered.same_of_qualifiedName hplain hh.offered hname⟩

/-- **Every helper is listed.** By induction on how it is called: directly from what the program
sees, or from another helper, which is listed and has been worked on when the loop ends. -/
theorem Helper.mem_helpers (hplain : documents.PlainActions) {h : Callable}
    (hh : (ofProgram documents p).Helper h) :
    ∃ q ∈ (ofProgram documents p).helpers, q.origin = h.origin ∧ q.index = h.index := by
  have hstate := helpers_state (ofProgram documents p)
  induction hh with
  | visible hv hcall =>
    exact Helper.same_of_queued hplain (.visible hv hcall) (hstate.visible _ hv _ hcall)
  | @helper g h hg hcall ih =>
    -- The queue holds the definition of `g`, if not `g` itself, and that calls the same helpers.
    obtain ⟨q, hq, horigin, hindex⟩ := ih
    have haction : q.action = g.action :=
      (hstate.helper q hq).offered.genuine.action_eq hg.offered.genuine horigin hindex
    have hworked : q ∈ (ofProgram documents p).helpers.take
        (ofProgram documents p).helpers.length := by rwa [List.take_length]
    exact Helper.same_of_queued hplain (.helper hg hcall)
      (hstate.worked q hworked _ (hcall.of_same horigin haction))

/-- A definition is listed exactly if it is a helper's. -/
theorem mem_helpers_iff (hplain : documents.PlainActions) (origin : Origin) (index : Nat) :
    (∃ q ∈ (ofProgram documents p).helpers, q.origin = origin ∧ q.index = index) ↔
      ∃ h, (ofProgram documents p).Helper h ∧ h.origin = origin ∧ h.index = index := by
  constructor
  · rintro ⟨q, hq, horigin, hindex⟩
    exact ⟨q, (helpers_state _).helper q hq, horigin, hindex⟩
  · rintro ⟨h, hh, rfl, rfl⟩
    exact hh.mem_helpers hplain

/-- No definition is listed twice. -/
theorem helpers_pairwise : (ofProgram documents p).helpers.Pairwise
    fun a b => a.sameDefinition b = false := by
  have hstate := helpers_state (ofProgram documents p)
  refine (List.pairwise_map.mp hstate.distinct).imp_of_mem ?_
  intro a b ha hb hne
  by_contra hsame
  obtain ⟨horigin, hindex⟩ := Callable.sameDefinition_iff.mp (by simpa using hsame)
  have haction := (hstate.helper a ha).offered.genuine.action_eq
    (hstate.helper b hb).offered.genuine horigin hindex
  exact hne (by rw [Callable.qualifiedName, Callable.qualifiedName, horigin, haction])

end Callables

end Cuesheet
