import Cuesheet.Proofs.Shape
import Cuesheet.Proofs.SourceMap
import Mathlib.SetTheory.Cardinal.Arithmetic

/-!
# Ids are names and nothing else

Two supplies that never repeat an id give the same compilation under different ids. The renaming
between them is a bijection of texts: it takes the ids of the one run to those of the other, and
because it is injective, looking a location up under a renamed id in the renamed source map gives
what it gave before. So the check of the data flow fails at the same place, or not at all.

Ids are written into a configuration in one pass behind the drafting (`Config.withIds`), so nothing
has to be said about drafting. That the entries of the source map keep their order is part of
`SourceMap.mapIds`, which maps them one by one.
-/

set_option autoImplicit false

namespace Cuesheet

/-! ## A bijection between two lists of ids -/

/-- A list of different texts is taken to any other of its length by a bijection of all texts. -/
theorem Text.exists_renaming {xs ys : List String} (hxs : xs.Nodup) (hys : ys.Nodup)
    (hlength : xs.length = ys.length) : ∃ rename : String ≃ String, xs.map rename = ys := by
  have hinfinite : Infinite String :=
    .of_injective (fun n : Nat => toString n) fun _ _ h => Text.toString_injective h
  have hfinite : Finite {x | x ∈ xs} := xs.finite_toSet
  let place : {x // x ∈ xs} ≃ Fin xs.length := (hxs.getEquiv xs).symm
  let image : {x // x ∈ xs} ↪ String :=
    ⟨fun x => ys.get ((place x).cast hlength), fun x y h =>
      place.injective (Fin.cast_injective hlength (hys.injective_get h))⟩
  obtain ⟨rename, hrename⟩ := Cardinal.extend_function_of_lt (s := {x | x ∈ xs}) image
    ((Cardinal.lt_aleph0_of_finite _).trans_le (Cardinal.aleph0_le_mk _)) ⟨Equiv.refl _⟩
  refine ⟨rename, List.ext_getElem (by simpa using hlength) fun i hi hi' => ?_⟩
  have hi : i < xs.length := by simpa using hi
  have hplace : place ⟨xs[i], xs.getElem_mem hi⟩ = ⟨i, hi⟩ :=
    (hxs.getEquiv xs).symm_apply_apply ⟨i, hi⟩
  rw [List.getElem_map]
  calc rename xs[i] = ys.get ((place ⟨xs[i], xs.getElem_mem hi⟩).cast hlength) :=
        hrename ⟨xs[i], xs.getElem_mem hi⟩
    _ = ys[i] := by rw [hplace]; rfl

namespace Engine

section

variable {supply supply' : IdSupply}

theorem length_assign {ι : Type} : ∀ (xs : List (String × ι)) (issued : Nat),
    (assign supply issued xs).length = xs.length
  | [], _ => rfl
  | (kind, x) :: xs, issued => by rw [assign, List.length_cons, length_assign xs, List.length_cons]

/-- A renaming that is right about the ids is right about the whole list. -/
theorem map_assign {ι : Type} {rename : String → String} :
    ∀ {xs : List (String × ι)} {issued : Nat},
      (assign supply issued xs).map (fun e => rename e.2.1) =
        (assign supply' issued xs).map (fun e => e.2.1) →
      (assign supply issued xs).map (fun e => (e.1, rename e.2.1, e.2.2)) =
        assign supply' issued xs
  | [], _, _ => rfl
  | (kind, x) :: xs, issued, h => by
    simp only [assign, List.map_cons, List.cons.injEq] at h ⊢
    exact ⟨by rw [h.1], map_assign h.2⟩

/-- The numberings of a draft by two supplies differ by a bijection of ids. -/
theorem Config.exists_renaming (hd : supply.Distinct) (hd' : supply'.Distinct)
    (c : Config Location) : ∃ rename : String ≃ String,
      (c.withIds supply' none).1 = (c.withIds supply none).1.map rename ∧
      (c.withIds supply' none).2 = (c.withIds supply none).2.mapIds rename := by
  obtain ⟨rename, hids⟩ := Text.exists_renaming (nodup_ids_assign hd c.issues 0)
    (nodup_ids_assign hd' c.issues 0) (by simp [length_assign])
  rw [List.map_map] at hids
  have hassign := map_assign hids
  obtain ⟨p, hdraft, hresult, hissues, hentries⟩ := Config.withIds_pairs hd c
  obtain ⟨p', hdraft', hresult', hissues', hentries'⟩ := Config.withIds_pairs hd' c
  refine ⟨rename, Config.determined.eq ?_ ?_, ?_⟩
  · rw [Config.withoutIds_map, Config.withoutIds_withIds, Config.withoutIds_withIds]
  · rw [← hresult, ← hresult', Config.map_map, Config.issues_map, Config.issues_map, hissues,
      hissues', ← hassign, List.map_map]
    rfl
  · have hrenamed : (c.withIds supply' none).2.entries =
        ((c.withIds supply none).2.mapIds rename).entries := by
      rw [SourceMap.mapIds, hentries, hentries', ← hassign, List.map_map, List.map_map]
      rfl
    exact congrArg SourceMap.mk hrenamed

end

/-! ## The check under a renaming -/

section

variable {rename : String → String} (hinj : Function.Injective rename)

include hinj

theorem SourceMap.get?_mapIds (map : SourceMap) (id : String) :
    (map.mapIds rename).get? (rename id) = map.get? id := by
  obtain ⟨entries⟩ := map
  show Dict.get? (entries.map fun entry => (rename entry.1, entry.2)) (rename id) =
    Dict.get? entries id
  induction entries with
  | nil => rfl
  | cons entry rest ih => simp [Dict.get?, hinj.eq_iff, ih]

theorem checkOperations_mapIds (map : SourceMap) (owner : String)
    (operations : List (Operation String)) (available : Dataflow.Available) :
    checkOperations (map.mapIds rename) owner (operations.map (Operation.map rename)) available =
      checkOperations map owner operations available := by
  have hnames : (operations.map (Operation.map rename)).map (·.name) =
      operations.map (·.name) := by
    rw [List.map_map]
    rfl
  have hlocation (index : Nat) :
      ((operations.map (Operation.map rename))[index]?.bind fun o =>
          (map.mapIds rename).get? o.id) =
        operations[index]?.bind fun o => map.get? o.id := by
    cases h : operations[index]? <;> simp [h, Operation.map, SourceMap.get?_mapIds hinj]
  simp only [checkOperations, hnames, hlocation]

theorem checkHalves_mapIds (map : SourceMap) (seedEnd : Bool) (owner : String)
    (start finish : List (Operation String)) :
    checkHalves (map.mapIds rename) seedEnd owner (start.map (Operation.map rename))
        (finish.map (Operation.map rename)) =
      checkHalves map seedEnd owner start finish := by
  simp only [checkHalves, checkOperations_mapIds hinj]

theorem checkAll_mapIds (map : SourceMap) (seedEnd : Bool) :
    ∀ lists : List (String × List (Operation String) × List (Operation String)),
      checkAll (map.mapIds rename) seedEnd (lists.map fun half =>
          (half.1, half.2.1.map (Operation.map rename), half.2.2.map (Operation.map rename))) =
        checkAll map seedEnd lists
  | [] => rfl
  | (owner, start, finish) :: rest => by
    rw [List.map_cons, checkAll, checkAll, checkHalves_mapIds hinj,
      checkAll_mapIds map seedEnd rest]

end

theorem Config.halves_map (rename : String → String) (c : Config String) :
    (c.map rename).halves = c.halves.map fun half =>
      (half.1, half.2.1.map (Operation.map rename), half.2.2.map (Operation.map rename)) := by
  simp [Config.halves, Config.map, Action.map, EventAction.map, Timeline.map, TimelineAction.map,
    List.map_flatMap, List.flatMap_map, Function.comp_def]

end Engine

/-! ## Two supplies -/

/-- **The supply decides what the ids are called, and nothing more.** With any two supplies that
never repeat an id, and none fixed, a program is lowered with both or with neither. If it is not,
the error is the same, and so is its location. If it is, the configurations are equal but for a
bijective renaming of ids, and the same renaming takes the one source map to the other, entry by
entry. -/
theorem Program.lower_renamed (p : Program) (documents : Documents) (assets : Assets)
    {settings : Settings} (hfixed : settings.configId = none) {supply supply' : Engine.IdSupply}
    (hd : supply.Distinct) (hd' : supply'.Distinct) :
    ∃ rename : String ≃ String, p.lower documents assets settings supply' =
      (p.lower documents assets settings supply).map (Compiled.mapIds rename) := by
  cases hdraft : p.draft documents assets settings with
  | error e => exact ⟨Equiv.refl _, by simp only [Program.lower, hdraft]; rfl⟩
  | ok draft =>
    obtain ⟨rename, hconfig, hmap⟩ := Engine.Config.exists_renaming hd hd' draft.config
    refine ⟨rename, ?_⟩
    have hcompiled : draft.compiled supply' none = (draft.compiled supply none).mapIds rename := by
      simp only [Program.Draft.compiled, Compiled.mapIds, hconfig, hmap,
        Engine.Config.operations_map, List.length_map]
      simp [Engine.Config.map]
    have hcheck := Engine.checkAll_mapIds rename.injective (draft.compiled supply none).sourceMap
      settings.seedEnd (draft.compiled supply none).config.halves
    rw [← Engine.Config.halves_map] at hcheck
    rw [Program.lower_of_draft hdraft, Program.lower_of_draft hdraft, hfixed, hcompiled]
    refine (congrArg (Except.map _) hcheck).trans ?_
    cases Engine.checkAll (draft.compiled supply none).sourceMap settings.seedEnd
      (draft.compiled supply none).config.halves <;> rfl

/-- Ids that are nothing but their numbers. -/
def Sample.numerals : Engine.IdSupply := fun _ number => toString number

/-- The sample, whose last id is called `config-39` in the one run and `39` in the other. -/
theorem Program.lower_renamed_sample : ∃ (compiled : Compiled) (rename : String ≃ String),
    Sample.program.lower Sample.documents .empty .deterministic .sequential = .ok compiled ∧
      Sample.program.lower Sample.documents .empty .deterministic Sample.numerals =
        .ok (compiled.mapIds rename) ∧
      rename "config-39" = "39" := by
  obtain ⟨compiled, h, hid⟩ := Except.exists_ok_of_map (m := Sample.program.lower Sample.documents
    .empty .deterministic .sequential) (f := (·.config.id)) (b := "config-39") (by decide +kernel)
  obtain ⟨compiled', h', hid'⟩ := Except.exists_ok_of_map (m := Sample.program.lower
    Sample.documents .empty .deterministic Sample.numerals) (f := (·.config.id)) (b := "39")
    (by decide +kernel)
  have hfixed : Settings.deterministic.configId = none := rfl
  have hdistinct : Sample.numerals.Distinct := fun _ _ _ _ => Text.toString_injective
  obtain ⟨rename, hrename⟩ := Program.lower_renamed Sample.program Sample.documents .empty hfixed
    Engine.IdSupply.sequential_distinct hdistinct
  rw [h] at hrename
  refine ⟨compiled, rename, h, hrename, ?_⟩
  rw [hrename] at h'
  cases h'
  rw [← hid]
  exact hid'

end Cuesheet
