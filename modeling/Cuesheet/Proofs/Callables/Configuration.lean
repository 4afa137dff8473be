import Cuesheet.Proofs.Callables.Helpers
import Cuesheet.Proofs.SourceMap

/-!
# The actions of a configuration

A configuration holds the actions that its program sees under the names by which the program calls
them, and behind these the helpers under their qualified names. Two facts follow.

**The list is exact.** Every helper is there once, and nothing else is.

**Every request reaches the definition it means.** A call in a library's body is resolved among the
actions of that library, but it is requested by a name of the configuration: the name by which the
program knows the same definition, or the qualified name if the program does not see it. The name
belongs to exactly one entry, and that entry is the lowering of the definition that the call means
in its own document.
-/

set_option autoImplicit false

namespace Cuesheet

/-- An action of a configuration is the draft with an id in the place of each location. -/
def Engine.Action.Numbers (draft : Engine.Action Location) (a : Engine.Action String) : Prop :=
  ∃ pairs : Engine.Action (String × Location),
    pairs.map Prod.snd = draft ∧ pairs.map Prod.fst = a

theorem Engine.Action.Numbers.name_eq {draft : Engine.Action Location} {a : Engine.Action String}
    (h : draft.Numbers a) : a.name = draft.name := by
  obtain ⟨pairs, rfl, rfl⟩ := h
  rfl

theorem Callable.lower_name {callables : Callables} {globals : Globals} {name : String}
    {c : Callable} {draft : Engine.Action Location}
    (h : c.lower callables globals name = .ok draft) : draft.name = name := by
  obtain ⟨start, -, h⟩ := Except.bind_ok h
  obtain ⟨finish, -, h⟩ := Except.bind_ok h
  cases h
  rfl

/-- How an action is lowered is a matter of its definition alone. -/
theorem Callable.lower_of_same {callables : Callables} {globals : Globals} {c d : Callable}
    (horigin : c.origin = d.origin) (haction : c.action = d.action) (name : String) :
    c.lower callables globals name = d.lower callables globals name := by
  unfold Callable.lower
  rw [horigin, haction]

/-- `a` is the entry of a configuration that holds the callable `c`. -/
def Program.Holds (p : Program) (documents : Documents) (c : Callable)
    (a : Engine.Action String) : Prop :=
  ∃ draft, c.lower (.ofProgram documents p) p.globals a.name = .ok draft ∧ draft.Numbers a

namespace Program

variable {p : Program} {documents : Documents} {assets : Assets} {settings : Settings}
  {supply : Engine.IdSupply} {compiled : Compiled}

/-- The actions of a configuration, entry by entry: each has the name of its entry and the content
that its definition is lowered to. Ids are left out, since numbering runs through the whole
configuration. -/
theorem lower_actions (h : p.lower documents assets settings supply = .ok compiled) :
    List.Forall₂ (fun (entry : String × Callable) (a : Engine.Action String) =>
        a.name = entry.1 ∧ p.Holds documents entry.2 a)
      (Callables.ofProgram documents p).entries compiled.config.actions := by
  obtain ⟨draft, hdraft, hconfig, -, -⟩ := Program.lower_ok h
  obtain ⟨pairs, hpairs, hresult⟩ :=
    Engine.Config.number_pairs supply settings.configId draft.config ⟨0, .empty⟩
  have hdrafted := (Program.draft_ok hdraft).actions
  have hactions : draft.config.actions = pairs.actions.map (Engine.Action.map Prod.snd) := by
    rw [← hpairs]
    rfl
  have hcompiled : compiled.config.actions = pairs.actions.map (Engine.Action.map Prod.fst) := by
    rw [hconfig.trans hresult.symm]
    rfl
  rw [hactions, List.forall₂_map_right_iff] at hdrafted
  rw [hcompiled, List.forall₂_map_right_iff]
  refine hdrafted.imp fun entry pair hlower => ?_
  have hnumbers : (pair.map Prod.snd).Numbers (pair.map Prod.fst) := ⟨pair, rfl, rfl⟩
  have hname : (pair.map Prod.fst).name = entry.1 :=
    hnumbers.name_eq.trans (Callable.lower_name hlower)
  exact ⟨hname, _, by rw [hname]; exact hlower, hnumbers⟩

theorem lower_action_names (h : p.lower documents assets settings supply = .ok compiled) :
    compiled.config.actions.map (·.name) =
      (Callables.ofProgram documents p).entries.map Prod.fst := by
  rw [eq_comm, ← List.forall₂_eq_eq_eq, List.forall₂_map_left_iff, List.forall₂_map_right_iff]
  exact (lower_actions h).imp fun _ _ hentry => hentry.1.symm

/-- **A configuration has the actions that its program sees, then its helpers, and no others.** The
loop over the helpers ends; each helper stands there once, under its qualified name; and they are
exactly the definitions that are called, directly or through other helpers, from the bodies of the
libraries' actions that the program sees and that it does not see themselves. -/
theorem lower_helpers_exact (p : Program) (documents : Documents) (assets : Assets)
    (settings : Settings) (supply : Engine.IdSupply) (hplain : documents.PlainActions) :
    (Callables.ofProgram documents p).Worked 0 (Callables.ofProgram documents p).firstQueue
        (Callables.ofProgram documents p).helpers ∧
      ∀ compiled, p.lower documents assets settings supply = .ok compiled →
        compiled.config.actions.map (·.name) =
            (Callables.ofProgram documents p).program.map Callable.name ++
              (Callables.ofProgram documents p).helpers.map Callable.qualifiedName ∧
          List.Forall₂ (p.Holds documents)
            ((Callables.ofProgram documents p).program ++
              (Callables.ofProgram documents p).helpers)
            compiled.config.actions ∧
          (((Callables.ofProgram documents p).helpers.map Callable.qualifiedName).Nodup ∧
            (Callables.ofProgram documents p).helpers.Pairwise
              fun a b => a.sameDefinition b = false) ∧
          ∀ origin index,
            (∃ q ∈ (Callables.ofProgram documents p).helpers,
                q.origin = origin ∧ q.index = index) ↔
              ∃ h, (Callables.ofProgram documents p).Helper h ∧
                h.origin = origin ∧ h.index = index := by
  refine ⟨Callables.helpers_worked _, fun compiled h => ⟨?_, ?_, ⟨?_, ?_⟩, ?_⟩⟩
  · rw [lower_action_names h, Callables.entries, List.map_append, List.map_map, List.map_map]
    rfl
  · -- Names and definitions of the entries stand in the same order.
    have hsnd : (Callables.ofProgram documents p).entries.map Prod.snd =
        (Callables.ofProgram documents p).program ++ (Callables.ofProgram documents p).helpers := by
      simp [Callables.entries, Function.comp_def]
    rw [← hsnd, List.forall₂_map_left_iff]
    exact (lower_actions h).imp fun _ _ hentry => hentry.2
  · exact (Callables.helpers_state _).distinct
  · exact Callables.helpers_pairwise
  · exact Callables.mem_helpers_iff hplain

/-- The sample has two helpers that call each other across two libraries, one of them with the name
of an action of the program. -/
theorem lower_helpers_exact_sample : Sample.documents.PlainActions ∧
    ∃ compiled, Sample.program.lower Sample.documents .empty .deterministic .sequential =
        .ok compiled ∧
      compiled.config.actions.map (·.name) =
        ["appear", "helper", "lib/effects.cue#helper", "lib/net.cue#ping"] := by
  have hplain : Sample.documents.PlainActions := by decide +kernel
  obtain ⟨compiled, h⟩ := Except.exists_ok (m := Sample.program.lower Sample.documents .empty
    .deterministic .sequential) (by decide +kernel)
  obtain ⟨-, hlowered⟩ := lower_helpers_exact Sample.program Sample.documents .empty
    .deterministic .sequential hplain
  refine ⟨hplain, compiled, h, (hlowered compiled h).1.trans ?_⟩
  decide +kernel

end Program

/-! ## Names -/

/-- No import gives an action a name with a `#`. -/
def PlainAliases (imports : List LibraryImport) : Prop :=
  ∀ i ∈ imports, ∀ entry ∈ i.actions, ∀ name ∈ entry.as, '#' ∉ name.toList

/-- No `#` stands in the name of an action or in a name that an import gives. -/
structure Program.PlainNames (p : Program) (documents : Documents) : Prop where
  actions : ∀ a ∈ p.actions, '#' ∉ a.name.toList
  aliases : PlainAliases p.libraryImports
  libraryActions : documents.PlainActions
  libraryAliases : ∀ entry ∈ documents.entries, PlainAliases entry.2.imports

instance (imports : List LibraryImport) : Decidable (PlainAliases imports) :=
  inferInstanceAs (Decidable (∀ i ∈ imports, ∀ entry ∈ i.actions, ∀ name ∈ entry.as,
    '#' ∉ name.toList))

namespace Imports

variable {p : Program} {documents : Documents}

/-- No callable of the list has a name with a `#` from an import. -/
def Plain (callables : List Callable) : Prop :=
  ∀ c ∈ callables, ∀ name ∈ c.as, '#' ∉ name.toList

theorem plain_nil : Plain [] :=
  fun _ hc => absurd hc (by simp)

theorem Plain.of_mem_select {callables : List Callable} (h : Plain callables)
    {imports : List LibraryImport} (hplain : PlainAliases imports) {i : LibraryImport}
    (hi : i ∈ imports) {c : Callable} (hc : c ∈ select i.actions callables) :
    ∀ name ∈ c.as, '#' ∉ name.toList := by
  obtain ⟨entry, hentry, found, hfound, rfl⟩ := mem_select_iff.mp hc
  intro name hname
  rw [Callable.renamed, Option.mem_def, Option.or_eq_some_iff] at hname
  rcases hname with hgiven | ⟨-, hkept⟩
  · exact hplain i hi entry hentry name hgiven
  · exact h found (Callable.mem_of_find? hfound) name hkept

theorem definitions_plain (library : Library) (path : String) :
    Plain (library.definitions path) := by
  intro c hc name hname
  obtain ⟨-, -, has⟩ := Callable.mem_definitions_iff.mp hc
  rw [has] at hname
  exact absurd hname (by simp)

theorem plain_hereditary (hplain : ∀ entry ∈ documents.entries, PlainAliases entry.2.imports) :
    Hereditary documents fun _ => Plain := by
  intro finished chain path callables hfinished hlisted
  obtain ⟨library, hlibrary, -, rfl⟩ := hlisted.made
  intro c hc
  rcases List.mem_append.mp hc with himported | hown
  · obtain ⟨i, hi, hselected⟩ := List.mem_flatMap.mp himported
    exact Plain.of_mem_select (shown_holds plain_nil (fun other target _ =>
      definitions_plain target other) hfinished _ _)
      (hplain _ (Dict.mem_of_get? hlibrary)) hi hselected
  · exact definitions_plain library path c hown

theorem distinct_names_nodup : ∀ (callables kept : List Callable),
    (kept.map Callable.name).Nodup → ((distinct kept callables).map Callable.name).Nodup
  | [], _, h => h
  | c :: rest, kept, h => by
    rw [distinct]
    split
    · exact distinct_names_nodup rest kept h
    · rename_i hc
      refine distinct_names_nodup rest (kept ++ [c]) ?_
      rw [List.map_append, List.nodup_append]
      refine ⟨h, by simp, ?_⟩
      intro name hname other hother heq
      obtain ⟨k, hk, rfl⟩ := List.mem_map.mp hname
      simp only [List.map_cons, List.map_nil, List.mem_singleton] at hother
      exact hc (List.any_eq_true.mpr ⟨k, hk, by simp [heq, hother]⟩)

end Imports

namespace Callables

variable {p : Program} {documents : Documents}

/-- The program calls no two of its actions by one name. -/
theorem program_names_nodup (hown : (p.actions.map (·.name)).Nodup) :
    ((ofProgram documents p).program.map Callable.name).Nodup := by
  rw [ofProgram, List.map_append, List.nodup_append]
  refine ⟨?_, by rwa [Callable.definitions_names], ?_⟩
  · have himported : ((Imports.ofProgram documents p).1.map Callable.name).Nodup :=
      Imports.distinct_names_nodup _ _ (by simp)
    exact himported.sublist (List.filter_sublist.map _)
  · intro name hname other hother heq
    obtain ⟨c, hc, rfl⟩ := List.mem_map.mp hname
    obtain ⟨d, hd, rfl⟩ := List.mem_map.mp hother
    obtain ⟨-, hhidden⟩ := List.mem_filter.mp hc
    simp only [Bool.not_eq_true', List.any_eq_false, decide_eq_true_eq] at hhidden
    exact hhidden d hd heq.symm

theorem program_names_plain (hplain : p.PlainNames documents) {c : Callable}
    (h : c ∈ (ofProgram documents p).program) : '#' ∉ c.name.toList := by
  rcases mem_program_iff.mp h with ⟨himported, -⟩ | hown
  · have hoffered := offered_of_imported himported
    obtain ⟨i, hi, hselected⟩ := Imports.mem_ofProgram himported
    have hvisible := visibleFrom_induct (p := p) (fun _ => Imports.plain_nil)
      (Imports.plain_hereditary hplain.libraryAliases) (Path.resolve "" i.path)
    cases has : c.as with
    | none =>
      rw [Callable.name, has]
      exact hoffered.plain hplain.libraryActions
    | some name =>
      rw [Callable.name, has]
      exact Imports.Plain.of_mem_select hvisible hplain.aliases hi hselected name has
  · obtain ⟨haction, -, has⟩ := Callable.mem_definitions_iff.mp hown
    rw [Callable.name, has]
    exact hplain.actions _ (List.mem_of_getElem? haction)

/-- **No two entries of a configuration have one name.** Names of actions are plain, and qualified
names are not, so the two halves of the list cannot clash; within each half names are distinct for
reasons of their own. -/
theorem entries_names_nodup (hplain : p.PlainNames documents)
    (hown : (p.actions.map (·.name)).Nodup) :
    ((ofProgram documents p).entries.map Prod.fst).Nodup := by
  have hnames : (ofProgram documents p).entries.map Prod.fst =
      (ofProgram documents p).program.map Callable.name ++
        (ofProgram documents p).helpers.map Callable.qualifiedName := by
    simp [entries, Function.comp_def]
  rw [hnames, List.nodup_append]
  refine ⟨program_names_nodup hown, (helpers_state _).distinct, ?_⟩
  -- A qualified name has a `#` in it, and the program's names have none.
  intro name hname other hother heq
  obtain ⟨c, hc, rfl⟩ := List.mem_map.mp hname
  obtain ⟨h, hh, rfl⟩ := List.mem_map.mp hother
  obtain ⟨path, horigin⟩ := ((helpers_state _).helper h hh).offered.library
  refine program_names_plain hplain hc ?_
  rw [heq, Callable.qualifiedName, horigin]
  simp

/-- The entry that a request asks for is there, and it is the definition that was found: for a call
in the program, for one in a library that the program can make too, and for one of a helper. -/
theorem emittedName_mem_entries (hplain : documents.PlainActions) {origin : Origin} {name : String}
    {found : Callable} (hfound : (ofProgram documents p).find? origin name = some found)
    (hwritten : origin = .program ∨ ∃ entry ∈ (ofProgram documents p).entries,
      entry.2.origin = origin ∧ entry.2.action.Calls name) :
    ∃ c, ((ofProgram documents p).emittedName origin found, c) ∈ (ofProgram documents p).entries ∧
      c.origin = found.origin ∧ c.action = found.action ∧ found.Genuine p documents := by
  cases origin with
  | program =>
    have hmem : found ∈ (ofProgram documents p).program := Callable.mem_of_find? hfound
    exact ⟨found, List.mem_append_left _ (List.mem_map.mpr ⟨found, hmem, rfl⟩), rfl, rfl,
      genuine_of_mem_program hmem⟩
  | library path =>
    have hoffered := offered_of_find? hfound
    rw [emittedName]
    cases hvisible : (ofProgram documents p).inProgram? found with
    -- The program sees the definition under some name, and the request asks by that name.
    | some visible =>
      have hmem := List.mem_of_find?_eq_some hvisible
      have hsame : visible.sameDefinition found = true := by simpa using List.find?_some hvisible
      obtain ⟨horigin, hindex⟩ := Callable.sameDefinition_iff.mp hsame
      exact ⟨visible, List.mem_append_left _ (List.mem_map.mpr ⟨visible, hmem, rfl⟩), horigin,
        (genuine_of_mem_program hmem).action_eq hoffered.genuine horigin hindex, hoffered.genuine⟩
    -- The program does not see it, so the call makes it a helper and the request asks by its
    -- qualified name.
    | none =>
      obtain ⟨entry, hentry, horigin, hcalls⟩ := hwritten.resolve_left (by simp)
      have hcall : (ofProgram documents p).CallsHelper entry.2 found :=
        ⟨by simp [horigin], ⟨name, hcalls, horigin ▸ hfound⟩,
          inProgram?_isNone_iff.mp (by rw [hvisible]; rfl)⟩
      have hhelper : (ofProgram documents p).Helper found := by
        rcases List.mem_append.mp hentry with hentry | hentry
        · obtain ⟨v, hv, rfl⟩ := List.mem_map.mp hentry
          exact .visible hv hcall
        · obtain ⟨g, hg, rfl⟩ := List.mem_map.mp hentry
          exact .helper ((helpers_state _).helper g hg) hcall
      -- The helper in the list may be another callable of the same definition.
      obtain ⟨q, hq, hsame, hindex⟩ := hhelper.mem_helpers hplain
      have haction := ((helpers_state _).helper q hq).offered.genuine.action_eq
        hoffered.genuine hsame hindex
      have hname : q.qualifiedName = found.qualifiedName := by
        rw [Callable.qualifiedName, Callable.qualifiedName, hsame, haction]
      exact ⟨q, List.mem_append_right _ (List.mem_map.mpr ⟨q, hq, by rw [hname]⟩), hsame, haction,
        hoffered.genuine⟩

end Callables

/-! ## Where requests are written -/

theorem Call.request_of_mem_sites {origin other : Origin} {c d : Call} {half : CallHalf}
    (h : Site.request origin c ∈ d.sites other half) : origin = other ∧ c = d := by
  simpa [Call.sites] using h

namespace Stmt

mutual

/-- A request for the action of a call comes from a statement that calls it. -/
theorem request_of_mem_sites (here : Surroundings) {origin : Origin} {c : Call} :
    ∀ (s : Stmt) {scope : Scope}, Site.request origin c ∈ sites here scope s →
      origin = here.origin ∧ s.Calls c.name
  | .call d, scope, h => by
    rw [sites] at h
    split at h
    · obtain ⟨horigin, hcall⟩ := Call.request_of_mem_sites h
      exact ⟨horigin, .call (by rw [hcall])⟩
    · exact absurd h (by simp)
  | .declaration d, scope, h => by
    rw [sites] at h
    split at h <;> exact absurd h (by simp)
  | .branch condition thenBody elseBody l, scope, h => by
    rw [sites] at h
    simp only [List.mem_cons, List.mem_append, List.not_mem_nil, reduceCtorEq, false_or,
      or_false] at h
    rcases h with h | h
    · obtain ⟨horigin, s, hs, hcalls⟩ := request_of_mem_sitesIn here thenBody h
      exact ⟨horigin, .thenBody hs hcalls⟩
    · obtain ⟨horigin, body, rfl, s, hs, hcalls⟩ :=
        request_of_mem_sitesInElse here elseBody (by simp) h
      exact ⟨horigin, .elseBody hs hcalls⟩
  | .loop item collection body l, scope, h => by
    rw [sites] at h
    simp only [List.mem_cons, List.mem_append, List.not_mem_nil, reduceCtorEq, false_or,
      or_false] at h
    obtain ⟨horigin, s, hs, hcalls⟩ := request_of_mem_sitesIn here body h
    exact ⟨horigin, .loop hs hcalls⟩
  | .breakLoop l, scope, h => by
    rw [sites] at h
    exact absurd h (by simp)
  | .continueLoop l, scope, h => by
    rw [sites] at h
    exact absurd h (by simp)

theorem request_of_mem_sitesIn (here : Surroundings) {origin : Origin} {c : Call} :
    ∀ (body : List Stmt) {scope : Scope}, Site.request origin c ∈ sitesIn here scope body →
      origin = here.origin ∧ ∃ s ∈ body, s.Calls c.name
  | [], scope, h => by
    rw [sitesIn] at h
    exact absurd h (by simp)
  | s :: rest, scope, h => by
    rw [sitesIn] at h
    rcases List.mem_append.mp h with h | h
    · obtain ⟨horigin, hcalls⟩ := request_of_mem_sites here s h
      exact ⟨horigin, s, List.mem_cons_self, hcalls⟩
    · obtain ⟨horigin, t, ht, hcalls⟩ := request_of_mem_sitesIn here rest h
      exact ⟨horigin, t, List.mem_cons_of_mem _ ht, hcalls⟩

theorem request_of_mem_sitesInElse (here : Surroundings) {origin : Origin} {c : Call} :
    ∀ (elseBody : Option (List Stmt)) {scope : Scope} {own : Site}, own ≠ .request origin c →
      Site.request origin c ∈ sitesInElse here scope own elseBody →
      origin = here.origin ∧ ∃ body, elseBody = some body ∧ ∃ s ∈ body, s.Calls c.name
  | none, scope, own, _, h => by
    rw [sitesInElse] at h
    exact absurd h (by simp)
  | some body, scope, own, hown, h => by
    rw [sitesInElse] at h
    rcases List.mem_cons.mp h with h | h
    · exact absurd h.symm hown
    · obtain ⟨horigin, hcalls⟩ := request_of_mem_sitesIn here body h
      exact ⟨horigin, body, rfl, hcalls⟩

end

end Stmt

theorem TimelineAction.request_of_mem_sites {here : Surroundings} {scope : Scope} {own : Site}
    {action : TimelineAction} {origin : Origin} {c : Call}
    (h : Site.request origin c ∈ (action.sites here scope own).operations) :
    origin = here.origin := by
  rw [ActionSites.operations, List.mem_append] at h
  cases action with
  | inline start finish =>
    rcases h with h | h
    · exact (Stmt.request_of_mem_sitesIn here start h).1
    · exact (Stmt.request_of_mem_sitesIn here finish h).1
  | named d =>
    rcases h with h | h
    · exact (Call.request_of_mem_sites h).1
    · simp only [TimelineAction.sites] at h
      split at h
      · split at h
        · exact (Call.request_of_mem_sites h).1
        · exact absurd h (by simp)
      · exact absurd h (by simp)

theorem Timeline.request_of_mem_sites {callables : Callables} {globals : Globals} {t : Timeline}
    {sites : ActionSites} (hsites : sites ∈ t.sites callables globals) {origin : Origin} {c : Call}
    (h : Site.request origin c ∈ sites.operations) : origin = .program := by
  -- Whatever a turn runs is written in the program.
  obtain ⟨turn, -, rfl⟩ := List.mem_map.mp hsites
  exact TimelineAction.request_of_mem_sites h

namespace Program

variable {p : Program} {documents : Documents}

/-- A request comes from the program itself or from the body of an action of the configuration,
which is written in the document that defines that action. -/
theorem request_of_mem_operationSites {origin : Origin} {c : Call}
    (h : Site.request origin c ∈ p.operationSites documents) :
    origin = .program ∨ ∃ entry ∈ (Callables.ofProgram documents p).entries,
      entry.2.origin = origin ∧ entry.2.action.Calls c.name := by
  rw [operationSites, List.mem_append, List.mem_append] at h
  -- Operations stand in actions, in event actions or on timelines, and only actions can come from a
  -- library.
  rcases h with (h | h) | h
  · obtain ⟨sites, hsites, h⟩ := List.mem_flatMap.mp h
    rcases List.mem_append.mp hsites with hsites | hsites
    · obtain ⟨d, -, rfl⟩ := List.mem_map.mp hsites
      exact absurd h (by simp [ActionSites.operations])
    · obtain ⟨entry, hentry, rfl⟩ := List.mem_map.mp hsites
      rcases List.mem_append.mp h with h | h
      · obtain ⟨horigin, hcalls⟩ := Stmt.request_of_mem_sitesIn _ _ h
        exact .inr ⟨entry, hentry, horigin.symm, .inl hcalls⟩
      · obtain ⟨horigin, hcalls⟩ := Stmt.request_of_mem_sitesIn _ _ h
        exact .inr ⟨entry, hentry, horigin.symm, .inr hcalls⟩
  · obtain ⟨sites, hsites, h⟩ := List.mem_flatMap.mp h
    obtain ⟨e, -, rfl⟩ := List.mem_map.mp hsites
    exact .inl (Stmt.request_of_mem_sitesIn _ _ h).1
  · obtain ⟨t, -, h⟩ := List.mem_flatMap.mp h
    obtain ⟨sites, hsites, h⟩ := List.mem_flatMap.mp h
    exact .inl (Timeline.request_of_mem_sites hsites h)

/-- **Every request reaches the definition that its call means.** Place by place: an operation that
stands for the request of a call asks by a name that one entry of the configuration has, no more,
and that entry is the lowering of the last action that the document of the call knows by the called
name. -/
theorem lower_requests_resolved {assets : Assets} {settings : Settings}
    {supply : Engine.IdSupply} {compiled : Compiled} (hplain : p.PlainNames documents)
    (hown : (p.actions.map (·.name)).Nodup)
    (h : p.lower documents assets settings supply = .ok compiled) :
    List.Forall₂ (fun (site : Site) (o : Engine.Operation String) =>
        ∀ origin c, site = .request origin c → ∃ found name entry,
          (Callables.ofProgram documents p).find? origin c.name = some found ∧
          found.Genuine p documents ∧
          o.name = "requestAction" ∧ o.data = [("systemName", .string name)] ∧
          (compiled.config.actions.map (·.name)).count name = 1 ∧
          entry ∈ compiled.config.actions ∧ entry.name = name ∧ p.Holds documents found entry)
      (p.operationSites documents) compiled.config.operations := by
  have hnodup : (compiled.config.actions.map (·.name)).Nodup := by
    rw [lower_action_names h]
    exact Callables.entries_names_nodup hplain hown
  have hwritten : ∀ site ∈ p.operationSites documents, ∀ origin c, site = .request origin c →
      origin = .program ∨ ∃ entry ∈ (Callables.ofProgram documents p).entries,
        entry.2.origin = origin ∧ entry.2.action.Calls c.name := by
    rintro _ hsite origin c rfl
    exact request_of_mem_operationSites hsite
  -- Each operation matches its site, and each site is written somewhere; the rest is said place by
  -- place.
  refine ((List.forall₂_and_left _ _).mpr ⟨hwritten, lower_operations h⟩).imp ?_
  rintro _ o ⟨hsite, hemits⟩ origin c rfl
  obtain ⟨found, hfound, hname, hdata⟩ := hemits.request_inv
  obtain ⟨target, htarget, horigin, haction, hgenuine⟩ :=
    Callables.emittedName_mem_entries hplain.libraryActions hfound (hsite origin c rfl)
  obtain ⟨entry, hentry, hentryName, draft, hdraft, hnumbers⟩ :=
    Lowered.exists_of_forall₂ (lower_actions h) htarget
  refine ⟨found, _, entry, hfound, hgenuine, hname, hdata, ?_, hentry, hentryName, draft, ?_,
    hnumbers⟩
  · exact List.count_eq_one_of_mem hnodup (List.mem_map.mpr ⟨entry, hentry, hentryName⟩)
  · rw [← Callable.lower_of_same horigin haction]
    exact hdraft

/-- In the sample, the network calls a helper of the effects by a name of its own. The program has
another action with the helper's own name, so the request asks by the qualified one. -/
theorem lower_requests_resolved_sample :
    Sample.program.PlainNames Sample.documents ∧
      (Sample.program.actions.map (·.name)).Nodup ∧
      ∃ compiled, Sample.program.lower Sample.documents .empty .deterministic .sequential =
          .ok compiled ∧
        (Sample.program.operationSites Sample.documents)[13]? =
          some (.request (.library "lib/net.cue") (Sample.call "assist" 11)) ∧
        ∃ o found name entry, compiled.config.operations[13]? = some o ∧
          o.data = [("systemName", .string name)] ∧
          (Callables.ofProgram Sample.documents Sample.program).find? (.library "lib/net.cue")
            "assist" = some found ∧
          (compiled.config.actions.map (·.name)).count name = 1 ∧
          entry ∈ compiled.config.actions ∧ entry.name = name ∧
          Sample.program.Holds Sample.documents found entry := by
  have hplain : Sample.program.PlainNames Sample.documents :=
    ⟨by decide +kernel, by decide +kernel, by decide +kernel, by decide +kernel⟩
  have hown : (Sample.program.actions.map (·.name)).Nodup := by decide +kernel
  obtain ⟨compiled, h⟩ := Except.exists_ok (m := Sample.program.lower Sample.documents .empty
    .deterministic .sequential) (by decide +kernel)
  have hall := lower_requests_resolved hplain hown h
  have hsite : (Sample.program.operationSites Sample.documents)[13]? =
      some (.request (.library "lib/net.cue") (Sample.call "assist" 11)) := rfl
  obtain ⟨hlt, hget⟩ := List.getElem?_eq_some_iff.mp hsite
  have hlt' : 13 < compiled.config.operations.length := hall.length_eq ▸ hlt
  obtain ⟨found, name, entry, hfound, -, -, hdata, hcount, hentry⟩ :=
    hall.get hlt hlt' _ _ hget
  exact ⟨hplain, hown, compiled, h, hsite, _, found, name, entry,
    List.getElem?_eq_getElem hlt', hdata, hfound, hcount, hentry⟩

end Program

end Cuesheet
