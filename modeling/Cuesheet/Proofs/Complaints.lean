import Cuesheet.Proofs.Causes
import Cuesheet.Proofs.Check
import Cuesheet.Proofs.Isolation
import Cuesheet.Proofs.Reordering

/-!
# Where a lack of data is reported

The check of the data flow goes through the lists of operations of a configuration and stops at the
first operation that lacks an entry. By then operations are numbered and know nothing of the source
any more, so the location of the report is looked up in the source map by the operation's id.

`Engine.FirstLack` says which operation is the first, in terms of what may be read at each position
and without the run of the check (`Engine.checkAll_eq_error_iff`). The operations of all lists in a
row are the operations of the configuration, and those correspond to sites of the source one by one.
So the position of the operation gives the statement it was lowered from, and the look-up leads
there, with one exception: a fixed id of the configuration goes into the source map too, as the last
entry, and takes the place of an operation's entry if the ids are the same.
-/

set_option autoImplicit false

namespace Cuesheet

/-! ## The first list that lacks something -/

theorem Lowered.exists_getElem?_of_forall₂ {α β : Type} {R : α → β → Prop} {xs : List α}
    {ys : List β} (h : List.Forall₂ R xs ys) {k : Nat} {y : β} (hy : ys[k]? = some y) :
    ∃ x, xs[k]? = some x ∧ R x y := by
  induction h generalizing k with
  | nil => simp at hy
  | cons hfirst _ ih =>
    cases k with
    | zero =>
      cases hy
      exact ⟨_, rfl, hfirst⟩
    | succ k => exact ih hy

theorem Dataflow.StopsAt.congr {initial other names : List String} {i : Nat} {complaint : Missing}
    (hsame : ∀ entry, entry ∈ initial ↔ entry ∈ other) (h : StopsAt initial names i complaint) :
    StopsAt other names i complaint where
  least := fun j hj => (h.least j hj).mono fun entry => (hsame entry).mp
  first := by
    have hreadable (entry : String) : entry ∈ readable initial names i ↔
        entry ∈ readable other names i := by
      simp only [readable, List.mem_append, hsame]
    simpa only [hreadable] using h.first

namespace Engine

/-- A list of operations to be checked: whose it is, and what is available in front of it. -/
structure Checked where
  owner : String
  initial : List String
  operations : List (Operation String)

namespace Checked

def names (list : Checked) : List String := list.operations.map (·.name)

/-- No operation of the list lacks anything. -/
def Passes (list : Checked) : Prop := ∀ i, Dataflow.Supplied list.initial list.names i

/-- The two lists of an action. The end finds what the start writes, if ends are seeded. -/
def ofHalves (seedEnd : Bool) (owner : String) (start finish : List (Operation String)) :
    List Checked :=
  [⟨owner, [], start⟩,
    ⟨owner, if seedEnd then Dataflow.outputs (start.map (·.name)) else [], finish⟩]

end Checked

/-- The lists of a configuration in the order in which they are checked: those of the action that
sets the globals, of actions, of event actions, which have no end, and of timeline actions. -/
def Config.checked (seedEnd : Bool) (c : Config String) : List Checked :=
  (c.initActions.flatMap fun a => Checked.ofHalves seedEnd a.name a.start a.finish) ++
    (c.actions.flatMap fun a => Checked.ofHalves seedEnd a.name a.start a.finish) ++
    (c.eventActions.flatMap fun a => Checked.ofHalves seedEnd a.name a.start []) ++
    c.timelines.flatMap fun t =>
      t.actions.flatMap fun a => Checked.ofHalves seedEnd a.name a.start a.finish

theorem Config.checked_eq (seedEnd : Bool) (c : Config String) :
    c.checked seedEnd = c.halves.flatMap fun half =>
      Checked.ofHalves seedEnd half.1 half.2.1 half.2.2 := by
  simp [checked, halves, List.flatMap_map, List.flatMap_assoc]

/-- These lists hold the operations of the configuration, in order. -/
theorem Config.operations_checked (seedEnd : Bool) (c : Config String) :
    (c.checked seedEnd).flatMap (·.operations) = c.operations := by
  have hhalves (owner : String) (start finish : List (Operation String)) :
      (Checked.ofHalves seedEnd owner start finish).flatMap (·.operations) = start ++ finish := by
    simp [Checked.ofHalves]
  simp [checked, operations, List.flatMap_assoc, hhalves]

/-- The operation at position `i` of a list is the first that lacks something: the lists in front of
that list pass, and so do the operations in front of it in its own list. -/
structure FirstLack (lists before : List Checked) (list : Checked) (i : Nat)
    (complaint : Dataflow.Missing) : Prop where
  split : ∃ behind, lists = before ++ list :: behind
  passed : ∀ earlier ∈ before, earlier.Passes
  stops : Dataflow.StopsAt list.initial list.names i complaint

namespace FirstLack

variable {lists before : List Checked} {first list : Checked} {i : Nat}
  {complaint : Dataflow.Missing}

theorem not_nil : ¬ FirstLack [] before list i complaint := by
  intro h
  obtain ⟨behind, hsplit⟩ := h.split
  simp at hsplit

/-- The first lack is in the first list, or the first list passes and it is behind it. -/
theorem cons_iff : FirstLack (first :: lists) before list i complaint ↔
    (before = [] ∧ list = first ∧ Dataflow.StopsAt first.initial first.names i complaint) ∨
      ∃ others, before = first :: others ∧ first.Passes ∧
        FirstLack lists others list i complaint := by
  constructor
  · intro h
    obtain ⟨behind, hsplit⟩ := h.split
    cases before with
    | nil =>
      cases hsplit
      exact .inl ⟨rfl, rfl, h.stops⟩
    | cons earlier others =>
      cases hsplit
      obtain ⟨hfirst, hothers⟩ := List.forall_mem_cons.mp h.passed
      exact .inr ⟨others, rfl, hfirst, ⟨behind, rfl⟩, hothers, h.stops⟩
  · rintro (⟨rfl, rfl, hstops⟩ | ⟨others, rfl, hfirst, h⟩)
    · exact ⟨⟨lists, rfl⟩, List.forall_mem_nil _, hstops⟩
    · obtain ⟨behind, hsplit⟩ := h.split
      exact ⟨⟨behind, by rw [hsplit]; rfl⟩, List.forall_mem_cons.mpr ⟨hfirst, h.passed⟩, h.stops⟩

end FirstLack

/-- What is reported about the operation at position `i` of a list. -/
def Checked.report (map : SourceMap) (list : Checked) (i : Nat) (complaint : Dataflow.Missing) :
    LowerError :=
  ⟨.missingData list.owner complaint,
    (list.operations[i]?.bind fun o => map.get? o.id).getD .unknown⟩

theorem checkOperations_eq_error_iff {map : SourceMap} {owner : String}
    {operations : List (Operation String)} {available : Dataflow.Available} {e : LowerError} :
    checkOperations map owner operations available = .error e ↔
      ∃ i complaint, Dataflow.StopsAt available (operations.map (·.name)) i complaint ∧
        e = Checked.report map ⟨owner, available, operations⟩ i complaint := by
  simp only [← Dataflow.run_failure_eq_some_iff]
  unfold checkOperations
  cases hrun : (Dataflow.run (operations.map (·.name)) available).failure with
  | none => simp [hrun]
  | some stop =>
    obtain ⟨i, complaint⟩ := stop
    simp only [hrun]
    constructor
    · intro h
      exact ⟨i, complaint, rfl, (Except.error.inj h).symm⟩
    · rintro ⟨i', complaint', hstop, rfl⟩
      cases hstop
      rfl

/-- Checks lists one after another. -/
def checkEach (map : SourceMap) : List Checked → Lowered Unit
  | [] => .ok ()
  | list :: rest => do
    let _ ← checkOperations map list.owner list.operations list.initial
    checkEach map rest

theorem checkEach_eq_error_iff {map : SourceMap} {e : LowerError} : ∀ {lists : List Checked},
    checkEach map lists = .error e ↔ ∃ before list i complaint,
      FirstLack lists before list i complaint ∧ e = list.report map i complaint
  | [] => by
    constructor
    · intro h
      cases h
    · rintro ⟨before, list, i, complaint, hlack, -⟩
      exact absurd hlack FirstLack.not_nil
  | first :: lists => by
    simp only [FirstLack.cons_iff]
    cases hfirst : checkOperations map first.owner first.operations first.initial with
    -- The first list stops the check. It stops at one place only, and it does not pass.
    | error err =>
      obtain ⟨i, complaint, hstops, rfl⟩ := checkOperations_eq_error_iff.mp hfirst
      rw [checkEach, hfirst]
      constructor
      · intro h
        cases h
        exact ⟨[], first, i, complaint, .inl ⟨rfl, rfl, hstops⟩, rfl⟩
      · rintro ⟨before, list, i', complaint', ⟨rfl, rfl, hstops'⟩ | ⟨others, rfl, hpasses, -⟩, rfl⟩
        · obtain ⟨rfl, rfl⟩ := hstops.unique hstops'
          rfl
        · exact absurd (hpasses i) hstops.not_supplied
    -- The first list passes, so the first lack is behind it.
    | ok available =>
      have hpasses : first.Passes := (checkOperations_ok hfirst).all
      rw [checkEach, hfirst, Except.ok_bind, checkEach_eq_error_iff]
      constructor
      · rintro ⟨before, list, i, complaint, hlack, rfl⟩
        exact ⟨first :: before, list, i, complaint, .inr ⟨before, rfl, hpasses, hlack⟩, rfl⟩
      · rintro ⟨before, list, i, complaint, ⟨-, rfl, hstops⟩ | ⟨others, -, -, hlack⟩, rfl⟩
        · exact absurd (hpasses i) hstops.not_supplied
        · exact ⟨others, list, i, complaint, hlack, rfl⟩

theorem checkOperations_error_congr {map : SourceMap} {owner : String}
    {operations : List (Operation String)} {available other : Dataflow.Available}
    (hsame : ∀ entry, entry ∈ available ↔ entry ∈ other) (e : LowerError) :
    checkOperations map owner operations available = .error e ↔
      checkOperations map owner operations other = .error e := by
  rw [checkOperations_eq_error_iff, checkOperations_eq_error_iff]
  constructor
  · rintro ⟨i, complaint, hstops, rfl⟩
    exact ⟨i, complaint, hstops.congr hsame, rfl⟩
  · rintro ⟨i, complaint, hstops, rfl⟩
    exact ⟨i, complaint, hstops.congr fun entry => (hsame entry).symm, rfl⟩

/-- The check of both halves of every action is a check of all lists in a row. -/
theorem checkAll_error_iff_checkEach {map : SourceMap} {seedEnd : Bool} {e : LowerError} :
    ∀ {halves : List (String × List (Operation String) × List (Operation String))},
      checkAll map seedEnd halves = .error e ↔
        checkEach map (halves.flatMap fun half =>
          Checked.ofHalves seedEnd half.1 half.2.1 half.2.2) = .error e
  | [] => Iff.rfl
  | (owner, start, finish) :: halves => by
    rw [checkAll, checkHalves, bind_assoc]
    simp only [bind_assoc]
    refine Except.bind_error_congr (fun _ => Iff.rfl) fun available behind havailable _ => ?_
    -- What the start leaves is kept in another order than `outputs` lists it.
    refine Except.bind_error_congr (checkOperations_error_congr fun entry => ?_)
      fun _ _ _ _ => checkAll_error_iff_checkEach
    cases seedEnd with
    | true => simpa using (checkOperations_ok havailable).available entry
    | false => rfl

/-- **The check reports the first operation that lacks something**, and nothing else. First means in
the order in which lists are checked, and within a list in the order of its operations. -/
theorem checkAll_eq_error_iff {map : SourceMap} {seedEnd : Bool} {e : LowerError}
    {c : Config String} :
    checkAll map seedEnd c.halves = .error e ↔ ∃ before list i complaint,
      FirstLack (c.checked seedEnd) before list i complaint ∧
        e = list.report map i complaint := by
  rw [checkAll_error_iff_checkEach, ← Config.checked_eq, checkEach_eq_error_iff]

/-! ## Where it is reported -/

theorem Config.operation_mem_memberIds {ι : Type} {c : Config ι} {o : Operation ι}
    (h : o ∈ c.operations) : (o.id, "operation") ∈ c.memberIds :=
  List.mem_append_right _ (List.mem_map_of_mem h)

/-- The source map has the location of every operation, but a fixed id of the configuration is
written last, and over an operation that has the same id. -/
theorem Config.withIds_located {supply : IdSupply} (hd : supply.Distinct) (fixed : Option String)
    (c : Config Location) :
    ∃ pairs : Config (String × Location), pairs.map Prod.snd = c ∧
      pairs.map Prod.fst = (c.withIds supply fixed).1 ∧
      ∀ o ∈ pairs.operations, (c.withIds supply fixed).2.get? o.id.1 =
        some (if fixed = some o.id.1 then c.id else o.id.2) := by
  obtain ⟨pairs, hdraft, hresult, hissues, hentries⟩ := Config.withIds_pairs hd c
  have hissued (o : Operation (String × Location)) (ho : o ∈ pairs.operations) :
      (c.withIds supply none).2.get? o.id.1 = some o.id.2 := by
    refine Dict.get?_of_mem (Config.withIds_keys hd c).1 ?_
    rw [hentries, ← hissues]
    exact pairs.ids_perm_issues.mem_iff.mp
      (List.mem_map_of_mem (List.mem_cons_of_mem _ (operation_mem_memberIds ho)))
  cases fixed with
  | none =>
    refine ⟨pairs, hdraft, hresult, ?_⟩
    intro o ho
    rw [hissued o ho]
    rfl
  | some id =>
    obtain ⟨before, hbefore, hfixed⟩ := Config.withIds_fixed supply id c
    refine ⟨{ pairs with id := (id, c.id) }, ?_, ?_, ?_⟩
    · rw [← hdraft]
      rfl
    · rw [hfixed, ← hresult]
      rfl
    · intro o ho
      -- The id that the fixed one stands for was issued for the configuration, not for an
      -- operation.
      have hne : o.id.1 ≠ (c.withIds supply none).1.id := by
        intro heq
        apply Config.id_not_mem_memberIds hd c
        rw [← heq, ← hresult]
        have hmem : o.map Prod.fst ∈ (pairs.map Prod.fst).operations := by
          rw [operations_map]
          exact List.mem_map_of_mem ho
        exact List.mem_map_of_mem (f := Prod.fst) (operation_mem_memberIds hmem)
      have hold : Dict.get? before.entries o.id.1 = some o.id.2 := by
        have h := hissued o ho
        rw [hbefore] at h
        exact (Dict.get?_set_of_ne _ _ hne).symm.trans h
      rw [hfixed]
      show Dict.get? (Dict.set before.entries id c.id) o.id.1 = _
      by_cases hclash : id = o.id.1
      · rw [← hclash, Dict.get?_set, if_pos rfl]
      · rw [Dict.get?_set_of_ne _ _ (Ne.symm hclash), hold, if_neg (by simpa using hclash)]

end Engine

namespace Program

variable {p : Program} {documents : Documents} {assets : Assets} {settings : Settings}

/-- Every operation with its site, and what the source map says about it. The map answers with the
place of the site, unless the id was given to the configuration, whose entry has then replaced
it. -/
theorem Draft.operations_located {draft : Draft} (h : p.draft documents assets settings = .ok draft)
    {supply : Engine.IdSupply} (hd : supply.Distinct) (fixed : Option String) :
    List.Forall₂ (fun (site : Site) (o : Engine.Operation String) =>
        site.Emits (.ofProgram documents p) o.name o.data ∧
          (draft.compiled supply fixed).sourceMap.get? o.id =
            some (if fixed = some o.id then p.location else site.location))
      (p.operationSites documents) (draft.compiled supply fixed).config.operations := by
  obtain ⟨pairs, hdraft, hresult, hlocated⟩ :=
    Engine.Config.withIds_located hd fixed draft.config
  have hmatch := (draft_ok h).operations_match
  rw [← hdraft, Engine.Config.operations_map, List.forall₂_map_right_iff] at hmatch
  show List.Forall₂ _ _ (draft.config.withIds supply fixed).1.operations
  rw [← hresult, Engine.Config.operations_map, List.forall₂_map_right_iff]
  have hboth := (List.forall₂_and_left _ _).mpr ⟨hlocated, hmatch.flip⟩
  refine hboth.flip.imp ?_
  rintro site o ⟨hget, hid, hemits⟩
  refine ⟨hemits, ?_⟩
  rw [← (draft_ok h).id, ← hid]
  exact hget

/-- The lists of operations of a draft with the ids that it gets, in the order of the check. -/
def Draft.checked (draft : Draft) (settings : Settings) (supply : Engine.IdSupply) :
    List Engine.Checked :=
  (draft.compiled supply settings.configId).config.checked settings.seedEnd

/-- The operation of a first lack, the site it was lowered from, and the report about it. -/
theorem Draft.report_of_firstLack {draft : Draft}
    (h : p.draft documents assets settings = .ok draft) {supply : Engine.IdSupply}
    (hd : supply.Distinct) {before : List Engine.Checked}
    {list : Engine.Checked} {i : Nat} {complaint : Dataflow.Missing}
    (hlack : Engine.FirstLack (draft.checked settings supply) before list i complaint) :
    ∃ o site, list.operations[i]? = some o ∧
      (p.operationSites documents)[(before.flatMap (·.operations)).length + i]? = some site ∧
      site.Emits (.ofProgram documents p) o.name o.data ∧
      list.report (draft.compiled supply settings.configId).sourceMap i complaint =
        ⟨.missingData list.owner complaint,
          if settings.configId = some o.id then p.location else site.location⟩ := by
  obtain ⟨behind, hsplit⟩ := hlack.split
  obtain ⟨op, hname, -⟩ := hlack.stops.first
  rw [Engine.Checked.names, List.getElem?_map] at hname
  obtain ⟨o, ho, -⟩ := Option.map_eq_some_iff.mp hname
  -- Its position among all operations is behind those of the lists in front.
  have hall : (draft.compiled supply settings.configId).config.operations =
      before.flatMap (·.operations) ++ (list.operations ++ behind.flatMap (·.operations)) := by
    rw [← Engine.Config.operations_checked settings.seedEnd]
    show (draft.checked settings supply).flatMap _ = _
    rw [hsplit, List.flatMap_append, List.flatMap_cons]
  have hposition : (draft.compiled supply settings.configId).config.operations[
      (before.flatMap (·.operations)).length + i]? = some o := by
    have hlt : i < list.operations.length := (List.getElem?_eq_some_iff.mp ho).1
    rw [hall, List.getElem?_append_right (Nat.le_add_right _ _), Nat.add_sub_cancel_left,
      List.getElem?_append_left hlt, ho]
  obtain ⟨site, hsite, hemits, hget⟩ :=
    Lowered.exists_getElem?_of_forall₂ (operations_located h hd settings.configId) hposition
  refine ⟨o, site, ho, hsite, hemits, ?_⟩
  rw [Engine.Checked.report, ho, Option.bind_some, hget, Option.getD_some]

/-- **A lack of data is reported for the first operation that lacks something, and at the statement
that the operation was lowered from**, unless the configuration was given the id of that operation.
-/
theorem lower_eq_missing_iff {supply : Engine.IdSupply} (hd : supply.Distinct) (owner : String)
    (complaint : Dataflow.Missing) (location : Location) :
    p.lower documents assets settings supply = .error ⟨.missingData owner complaint, location⟩ ↔
      ∃ draft before list i o site,
        p.draft documents assets settings = .ok draft ∧
        Engine.FirstLack (draft.checked settings supply) before list i complaint ∧
        list.owner = owner ∧ list.operations[i]? = some o ∧
        (p.operationSites documents)[(before.flatMap (·.operations)).length + i]? = some site ∧
        site.Emits (.ofProgram documents p) o.name o.data ∧
        location = if settings.configId = some o.id then p.location else site.location := by
  constructor
  · intro h
    cases hdraft : p.draft documents assets settings with
    | error e =>
      rw [lower, hdraft] at h
      cases h
      -- Drafting has errors of its own, but none of them is about missing data.
      cases draft_lacksNothing p documents assets settings _ hdraft
    | ok draft =>
      rw [lower_of_draft hdraft supply] at h
      obtain ⟨before, list, i, complaint', hlack, hreport⟩ :=
        Engine.checkAll_eq_error_iff.mp (Except.error_of_map h)
      obtain ⟨o, site, ho, hsite, hemits, hlocated⟩ := Draft.report_of_firstLack hdraft hd hlack
      cases hreport.trans hlocated
      exact ⟨draft, before, list, i, o, site, rfl, hlack, rfl, ho, hsite, hemits, rfl⟩
  · rintro ⟨draft, before, list, i, o, site, hdraft, hlack, rfl, ho, hsite, -, rfl⟩
    obtain ⟨o', site', ho', hsite', -, hlocated⟩ := Draft.report_of_firstLack hdraft hd hlack
    cases ho.symm.trans ho'
    cases hsite.symm.trans hsite'
    have hcheck := Engine.checkAll_eq_error_iff.mpr
      ⟨before, list, i, complaint, hlack, hlocated.symm⟩
    rw [lower_of_draft hdraft supply, hcheck]
    rfl

end Program

/-! ## A lamp that is dimmed before it is selected -/

namespace Lamp

/-- The first action selects the lamp and lights it, and the second one only dims it. -/
def program : Program where
  location := .onLine 1
  elements := [
    .action ⟨"light", [],
      .regular [Sample.callWith "selectElement" "#lamp" 3, Sample.callWith "addClass" "on" 4],
      .onLine 2⟩,
    .action ⟨"dim", [], .regular [Sample.callWith "addClass" "off" 6], .onLine 5⟩,
    .timeline ⟨"main", "#stage", .raf, none, [], .onLine 7⟩]

/-- What `addClass` lacks. -/
def complaint : Dataflow.Missing :=
  ⟨"addClass", "selectedElement", Dataflow.hint "addClass" "selectedElement"⟩

/-- Settings with a fixed id for the configuration. -/
def settings (fixed : Option String) : Settings := { Settings.deterministic with configId := fixed }

theorem lower_program : program.lower .empty .empty (settings none) .sequential =
    .error ⟨.missingData "dim" complaint, .onLine 6⟩ := by
  rfl

theorem lower_program_fixed : program.lower .empty .empty (settings (some "op-4")) .sequential =
    .error ⟨.missingData "dim" complaint, .onLine 1⟩ := by
  rfl

end Lamp

namespace Program

/-- Dimming the lamp is reported at its statement, as the only operation of the second action. -/
theorem lower_eq_missing_iff_lamp :
    Lamp.program.lower .empty .empty (Lamp.settings none) .sequential =
        .error ⟨.missingData "dim" Lamp.complaint, .onLine 6⟩ ∧
      ∃ draft before list i,
        Lamp.program.draft .empty .empty (Lamp.settings none) = .ok draft ∧
        Engine.FirstLack (draft.checked (Lamp.settings none) .sequential) before list i
          Lamp.complaint ∧
        list.owner = "dim" := by
  refine ⟨Lamp.lower_program, ?_⟩
  obtain ⟨draft, before, list, i, o, site, hdraft, hlack, howner, -⟩ :=
    (lower_eq_missing_iff Engine.IdSupply.sequential_distinct "dim" Lamp.complaint
      (.onLine 6)).mp Lamp.lower_program
  exact ⟨draft, before, list, i, hdraft, hlack, howner⟩

/-- With the id of its operation for the configuration, it is not reported at any operation. -/
theorem missing_reported_elsewhere : ¬ ∀ (p : Program) (documents : Documents) (assets : Assets)
    (settings : Settings) (owner : String) (complaint : Dataflow.Missing) (location : Location),
    p.lower documents assets settings .sequential =
        .error ⟨.missingData owner complaint, location⟩ →
      ∃ site ∈ p.operationSites documents, location = site.location := by
  intro h
  obtain ⟨site, hsite, hlocation⟩ := h _ _ _ _ _ _ _ Lamp.lower_program_fixed
  have hlocations :
      Location.onLine 1 ∉ (Lamp.program.operationSites .empty).map Site.location := by
    decide
  rw [hlocation] at hlocations
  exact hlocations (List.mem_map_of_mem hsite)

end Program

end Cuesheet
