import Cuesheet.Compile
import Cuesheet.Proofs.SourceMap
import Mathlib.Data.List.TakeWhile

/-!
# What the check can find in a lowered program

The check of a configuration looks for many kinds of problems, but a lowered program has next to
none of them. It has a timeline, its timelines have known types and issued ids, its windows are
valid, and every id is in the source map. What is left are three texts that come from outside, and a
fixed id of the configuration, which may be one that is also issued.

`Engine.Check.config_eq` computes the whole list of problems from these facts. The rest of the file
shows that a lowered program meets them, with a fixed id and without one.
-/

set_option autoImplicit false

namespace Cuesheet

/-- Trimming leaves nothing exactly of a text that is nothing but white space. -/
theorem Text.trim_eq_empty_iff (s : String) : Text.trim s = "" ↔ Text.isBlankText s = true := by
  rw [Text.isBlankText_iff, Text.trim]
  generalize s.toList = cs
  have hempty : String.ofList [] = "" := rfl
  rw [← hempty, String.ofList_inj, List.reverse_eq_nil_iff, List.dropWhile_eq_nil_iff]
  constructor
  · intro h
    -- What is left in front does not start with white space, so it is not all white space.
    by_contra hrest
    have hhead := List.head_dropWhile_not Text.isBlank hrest
    rw [h _ (by simp)] at hhead
    cases hhead
  · intro h
    simp [h]

namespace Engine

/-- Every identity of a configuration but its own, with its kind. -/
def Config.memberIds {ι : Type} (c : Config ι) : List (ι × String) := c.ids.tail

theorem Config.ids_eq_cons {ι : Type} (c : Config ι) : c.ids = (c.id, "config") :: c.memberIds :=
  rfl

namespace Check

/-! ## The check of each part -/

theorem window_of_valid {w : Window} (h : w.Valid) (path : String) :
    window (some w.toJson) path = [] := by
  obtain ⟨hstart, hfinish, horder⟩ := h.ordered
  simp [window, Window.toJson, Json.member?, Dict.get?, Json.ofFloat, Json.number?, hstart, hfinish,
    horder]

theorem windowsFrom_of_valid (path : String) : ∀ (actions : List (TimelineAction String))
    (index : Nat), (∀ a ∈ actions, a.window.Valid) →
    windowsFrom path index (actions.map (·.toJson)) = []
  | [], _, _ => rfl
  | a :: actions, index, h => by
    have hduration : a.toJson.member? "duration" = some a.window.toJson := by
      simp [TimelineAction.toJson, Json.member?, Dict.get?]
    rw [List.forall_mem_cons] at h
    rw [List.map_cons, windowsFrom, hduration, window_of_valid h.1, List.nil_append]
    exact windowsFrom_of_valid path actions (index + 1) h.2

theorem typeField_of_timeline (t : Timeline String) (path : String) :
    typeField t.toJson path = [] := by
  have htype : t.toJson.member? "type" = some (.string t.type.name) := by
    simp [Timeline.toJson, Json.member?, Dict.get?]
  rw [typeField, htype]
  cases t.type <;> rfl

theorem textField_of_string {j : Json} {field text : String} (path : String)
    (h : j.member? field = some (.string text)) :
    textField j field path = if Text.trim text = "" then [⟨path, "must not be empty"⟩] else [] := by
  rw [textField, h]
  simp only [Option.bind_some, Json.string?, Text.trim_eq_empty_iff]

/-- A timeline in which the check finds nothing. -/
def Fine (t : Timeline String) : Prop :=
  Text.trim t.id ≠ "" ∧ ∀ a ∈ t.actions, a.window.Valid

theorem timeline_of_fine {t : Timeline String} (h : Fine t) (path : String) :
    timeline t.toJson path = [] := by
  have hid : t.toJson.member? "id" = some (.string t.id) := by
    simp [Timeline.toJson, Json.member?, Dict.get?]
  have hactions : (t.toJson.member? "timelineActions").bind Json.items? =
      some (t.actions.map (·.toJson)) := by
    simp [Timeline.toJson, Json.member?, Dict.get?, Json.items?]
  rw [timeline, textField_of_string _ hid, if_neg h.1, typeField_of_timeline, hactions,
    Option.getD_some, windowsFrom_of_valid path t.actions 0 h.2]
  rfl

theorem timelinesFrom_of_fine : ∀ (timelines : List (Timeline String)) (index : Nat),
    (∀ t ∈ timelines, Fine t) → timelinesFrom index (timelines.map (·.toJson)) = []
  | [], _, _ => rfl
  | t :: timelines, index, h => by
    rw [List.forall_mem_cons] at h
    rw [List.map_cons, timelinesFrom, timeline_of_fine h.1, List.nil_append]
    exact timelinesFrom_of_fine timelines (index + 1) h.2

/-- The three texts that have to be there, with their paths. -/
def texts (c : Config String) : List (String × String) :=
  [("id", c.id), ("containerSelector", c.containerSelector), ("language", c.language)]

/-- What is reported about those of the texts that are blank. -/
def blankTexts (c : Config String) : List Problem :=
  ((texts c).filter fun entry => Text.trim entry.2 = "").map fun entry =>
    ⟨entry.1, "must not be empty"⟩

/-- If the timelines are fine, only the three texts are left. -/
theorem value_eq_blankTexts {c : Config String} (hsome : c.timelines ≠ [])
    (h : ∀ t ∈ c.timelines, Fine t) : value c.toJson = blankTexts c := by
  have hid : c.toJson.member? "id" = some (.string c.id) := by
    simp [Config.toJson, Json.member?, Dict.get?]
  have hselector : c.toJson.member? "containerSelector" = some (.string c.containerSelector) := by
    simp [Config.toJson, Json.member?, Dict.get?]
  have hlanguage : c.toJson.member? "language" = some (.string c.language) := by
    simp [Config.toJson, Json.member?, Dict.get?]
  have htimelines : (c.toJson.member? "timelines").bind Json.items? =
      some (c.timelines.map (·.toJson)) := by
    simp [Config.toJson, Json.member?, Dict.get?, Json.items?]
  have hrest := timelinesFrom_of_fine c.timelines 0 h
  obtain ⟨first, rest, hcons⟩ := List.exists_cons_of_ne_nil hsome
  rw [hcons, List.map_cons] at hrest htimelines
  rw [value, textField_of_string _ hid, textField_of_string _ hselector,
    textField_of_string _ hlanguage, htimelines]
  simp only [hrest, blankTexts, texts, List.filter_cons, List.filter_nil, decide_eq_true_eq]
  split_ifs <;> rfl

/-- What is reported about members that have the id of the configuration itself. -/
def clashes (c : Config String) : List Problem :=
  (c.memberIds.filter fun entry => entry.1 = c.id).map fun entry =>
    ⟨entry.2 ++ " " ++ entry.1, "duplicate id"⟩

/-- Ids that are all different and all in the source map: reported are those seen before. -/
theorem idsFrom_of_nodup {map : SourceMap} : ∀ {entries : List (String × String)}
    (seen : List String), (entries.map Prod.fst).Nodup →
    (∀ entry ∈ entries, map.contains entry.1 = true) →
    idsFrom map seen entries = (entries.filter fun entry => entry.1 ∈ seen).map fun entry =>
      ⟨entry.2 ++ " " ++ entry.1, "duplicate id"⟩
  | [], _, _, _ => rfl
  | (id, kind) :: entries, seen, hnodup, hmap => by
    rw [List.map_cons, List.nodup_cons] at hnodup
    rw [List.forall_mem_cons] at hmap
    -- The id is seen from now on, but it does not come again.
    have hrest : (entries.filter fun entry => entry.1 ∈ id :: seen) =
        entries.filter fun entry => entry.1 ∈ seen := by
      apply List.filter_congr
      intro entry hentry
      have hmem : entry.1 ∈ entries.map Prod.fst := List.mem_map_of_mem hentry
      have hne : entry.1 ≠ id := fun heq => hnodup.1 (heq ▸ hmem)
      simp [hne]
    rw [idsFrom, idsFrom_of_nodup (id :: seen) hnodup.2 hmap.2, hrest]
    by_cases hseen : id ∈ seen <;> simp [hseen, hmap.1]

/-- **All problems of a configuration** whose timelines are fine and whose members have ids of
their own that are in the source map. -/
theorem config_eq {c : Config String} {map : SourceMap} (hsome : c.timelines ≠ [])
    (hfine : ∀ t ∈ c.timelines, Fine t) (hnodup : (c.memberIds.map Prod.fst).Nodup)
    (hmap : ∀ entry ∈ c.ids, map.contains entry.1 = true) :
    config c map = blankTexts c ++ clashes c := by
  rw [Config.ids_eq_cons, List.forall_mem_cons] at hmap
  rw [config, value_eq_blankTexts hsome hfine, Config.ids_eq_cons, idsFrom,
    idsFrom_of_nodup [c.id] hnodup hmap.2, clashes]
  simp [hmap.1]

end Check

/-! ## Ids, with or without a fixed one -/

theorem SourceMap.contains_iff {map : SourceMap} {id : String} :
    map.contains id = true ↔ id ∈ map.ids :=
  Dict.isSome_get?_iff

section

variable {supply : IdSupply}

/-- A fixed id takes the place of the last id that would be issued, in the configuration and in the
source map, and changes nothing else. -/
theorem Config.withIds_fixed (supply : IdSupply) (fixed : String) (c : Config Location) :
    ∃ before : SourceMap,
      (c.withIds supply none).2 = before.insert (c.withIds supply none).1.id c.id ∧
      c.withIds supply (some fixed) =
        ({ (c.withIds supply none).1 with id := fixed }, before.insert fixed c.id) :=
  ⟨_, rfl, rfl⟩

theorem Config.nodup_memberIds (hd : supply.Distinct) (fixed : Option String)
    (c : Config Location) : ((c.withIds supply fixed).1.memberIds.map Prod.fst).Nodup := by
  have hnodup := (Config.withIds_keys hd c).2.nodup_iff.mp (Config.withIds_keys hd c).1
  rw [Config.ids_eq_cons, List.map_cons, List.nodup_cons] at hnodup
  cases fixed with
  | none => exact hnodup.2
  | some id =>
    obtain ⟨before, -, hfixed⟩ := Config.withIds_fixed supply id c
    rw [hfixed]
    exact hnodup.2

/-- An id that is issued for the configuration is issued for nothing else. With a fixed id this can
fail, and then the check reports it. -/
theorem Config.id_not_mem_memberIds (hd : supply.Distinct) (c : Config Location) :
    (c.withIds supply none).1.id ∉ (c.withIds supply none).1.memberIds.map Prod.fst := by
  have hnodup := (Config.withIds_keys hd c).2.nodup_iff.mp (Config.withIds_keys hd c).1
  rw [Config.ids_eq_cons, List.map_cons, List.nodup_cons] at hnodup
  exact hnodup.1

/-- Every id has a source location, whether the id of the configuration is fixed or issued. Putting
a fixed id into the map may replace the location of a member, but it takes no id out. -/
theorem Config.withIds_contains (hd : supply.Distinct) (fixed : Option String)
    (c : Config Location) : ∀ entry ∈ (c.withIds supply fixed).1.ids,
      (c.withIds supply fixed).2.contains entry.1 = true := by
  have hissued (entry : String × String) (hentry : entry ∈ (c.withIds supply none).1.ids) :
      entry.1 ∈ (c.withIds supply none).2.ids :=
    (Config.withIds_keys hd c).2.mem_iff.mpr (List.mem_map_of_mem hentry)
  intro entry hentry
  rw [SourceMap.contains_iff]
  cases fixed with
  | none => exact hissued entry hentry
  | some id =>
    obtain ⟨before, hbefore, hfixed⟩ := Config.withIds_fixed supply id c
    rw [hfixed] at hentry ⊢
    rw [Config.ids_eq_cons] at hentry
    show entry.1 ∈ Dict.keys (Dict.set before.entries id c.id)
    rw [Dict.mem_keys_set_iff]
    rcases List.mem_cons.mp hentry with rfl | hmember
    · exact .inl rfl
    -- A member was in the map before the configuration, whose id it does not have.
    · right
      have hkeys := hissued entry (List.mem_cons_of_mem _ hmember)
      rw [hbefore] at hkeys
      rcases Dict.mem_keys_set_iff.mp hkeys with heq | hkeys
      · exact absurd (heq ▸ List.mem_map_of_mem hmember) (Config.id_not_mem_memberIds hd c)
      · exact hkeys

/-- Timelines get issued ids and keep their windows, place by place. -/
theorem Config.withIds_timelines (supply : IdSupply) (fixed : Option String)
    (c : Config Location) :
    List.Forall₂ (fun (draft : Timeline Location) (t : Timeline String) =>
        (∃ m, t.id = supply "timeline" m) ∧
          t.actions.map (·.window) = draft.actions.map (·.window))
      c.timelines (c.withIds supply fixed).1.timelines := by
  obtain ⟨-, p, hdraft, hresult, hpairs⟩ := Config.number_pass supply c ⟨0, .empty⟩
  have hnumbered : (c.withIds supply fixed).1.timelines = p.timelines.map (·.map Prod.fst) := by
    have hnone : (c.withIds supply fixed).1.timelines = (c.withIds supply none).1.timelines := by
      cases fixed <;> rfl
    rw [hnone]
    exact congrArg Config.timelines hresult.symm
  have hsource : c.timelines = p.timelines.map (·.map Prod.snd) :=
    congrArg Config.timelines hdraft.symm
  rw [hnumbered, hsource, List.forall₂_map_left_iff, List.forall₂_map_right_iff, List.forall₂_same]
  intro pair hpair
  -- The id of a timeline is one of those that were issued, and for the kind of timelines.
  have hissue : ("timeline", pair.id) ∈ p.issues := by
    simp only [Config.issues, List.mem_append, List.mem_flatMap]
    exact .inr (.inr (.inr (.inl ⟨pair, hpair, by simp [Timeline.issues]⟩)))
  rw [hpairs] at hissue
  obtain ⟨m, -, hm⟩ := exists_number_of_mem_assign hissue
  refine ⟨⟨m, hm⟩, ?_⟩
  simp [Timeline.map, TimelineAction.map, Function.comp_def]

end

theorem IdSupply.sequential_not_blank {kind : String} (h : Text.isBlankText kind = false)
    (m : Nat) : Text.trim (sequential kind m) ≠ "" := by
  rw [Ne, Text.trim_eq_empty_iff]
  unfold Text.isBlankText at h ⊢
  simp [sequential, h]

end Engine

namespace Program

variable {p : Program} {documents : Documents} {assets : Assets} {settings : Settings}
  {compiled : Compiled}

/-- Every window of a draft is valid, because those of its cues are. -/
theorem Drafted.windows_valid {config : Engine.Config Location}
    (h : p.Drafted documents settings config) :
    ∀ t ∈ config.timelines, ∀ a ∈ t.actions, a.window.Valid := by
  intro lowered hlowered
  obtain ⟨t, -, ht⟩ := Lowered.exists_of_forall₂ h.timelines.flip hlowered
  obtain ⟨cues, actions, -, hplayed, rfl⟩ := Timeline.lower_eq_ok_iff.mp ht
  exact hplayed.valid_of_mem.2

/-- The check of a lowered program reports blank texts and members with the configuration's id. -/
theorem check_eq (h : p.lower documents assets settings .sequential = .ok compiled) :
    Engine.Check.config compiled.config compiled.sourceMap =
      Engine.Check.blankTexts compiled.config ++ Engine.Check.clashes compiled.config := by
  obtain ⟨draft, hdraft, hconfig, hmap, -⟩ := Program.lower_ok h
  have hdrafted := Program.draft_ok hdraft
  have hd := Engine.IdSupply.sequential_distinct
  have htimelines :=
    Engine.Config.withIds_timelines .sequential settings.configId draft.config
  rw [hconfig, hmap]
  -- What is left to show is what the other checks ask for: timelines with ids and valid windows,
  -- distinct ids, and a full source map.
  apply Engine.Check.config_eq
  · have hlength := hdrafted.timelines.length_eq.trans htimelines.length_eq
    intro hnil
    apply hdrafted.some_timeline
    rwa [hnil, List.length_nil, List.length_eq_zero_iff] at hlength
  · intro t ht
    obtain ⟨source, hsource, ⟨m, hid⟩, hwindows⟩ := Lowered.exists_of_forall₂ htimelines.flip ht
    refine ⟨?_, ?_⟩
    · rw [hid]
      exact Engine.IdSupply.sequential_not_blank (by decide +kernel) m
    · intro a ha
      have hwindow : a.window ∈ source.actions.map (·.window) :=
        hwindows ▸ List.mem_map_of_mem ha
      obtain ⟨b, hb, hwindow⟩ := List.mem_map.mp hwindow
      rw [← hwindow]
      exact hdrafted.windows_valid source hsource b hb
  · exact Engine.Config.nodup_memberIds hd _ _
  · exact Engine.Config.withIds_contains hd _ _

/-- A member can have the configuration's id only if that one is fixed. An issued one is distinct
from all others. -/
theorem clashes_eq_nil_iff (h : p.lower documents assets settings .sequential = .ok compiled) :
    Engine.Check.clashes compiled.config = [] ↔
      ∀ fixed, settings.configId = some fixed →
        ∀ entry ∈ compiled.config.memberIds, entry.1 ≠ fixed := by
  obtain ⟨draft, -, hconfig, -, -⟩ := Program.lower_ok h
  have hnone : Engine.Check.clashes compiled.config = [] ↔
      ∀ entry ∈ compiled.config.memberIds, entry.1 ≠ compiled.config.id := by
    simp [Engine.Check.clashes]
  rw [hnone]
  cases hfixed : settings.configId with
  | none =>
    rw [hfixed] at hconfig
    -- An id that is issued for the configuration is not issued for a member.
    have hfresh := Engine.Config.id_not_mem_memberIds Engine.IdSupply.sequential_distinct
      draft.config
    rw [← hconfig] at hfresh
    constructor
    · intro _ fixed hsome
      cases hsome
    · intro _ entry hentry heq
      exact hfresh (heq ▸ List.mem_map_of_mem hentry)
  | some fixed =>
    have hid : compiled.config.id = fixed := by
      rw [hconfig, hfixed]
      rfl
    simp [hid]

/-- **What the check can find in a lowered program.** It finds nothing exactly if the three texts
are not blank and a fixed id, if there is one, differs from every id that was issued. Whatever it
does find is one of these: a blank text, or a member with the fixed id. So no window, no type and no
id of a timeline, no lack of timelines and no gap in the source map is ever reported. -/
theorem check_lowered (h : p.lower documents assets settings .sequential = .ok compiled) :
    (Engine.Check.config compiled.config compiled.sourceMap = [] ↔
      Text.trim compiled.config.id ≠ "" ∧ Text.trim compiled.config.containerSelector ≠ "" ∧
        Text.trim compiled.config.language ≠ "" ∧
        ∀ fixed, settings.configId = some fixed →
          ∀ entry ∈ compiled.config.memberIds, entry.1 ≠ fixed) ∧
      Engine.Check.config compiled.config compiled.sourceMap =
        Engine.Check.blankTexts compiled.config ++ Engine.Check.clashes compiled.config := by
  refine ⟨?_, check_eq h⟩
  rw [check_eq h, List.append_eq_nil_iff, clashes_eq_nil_iff h]
  simp [Engine.Check.blankTexts, Engine.Check.texts, and_assoc]

end Program

/-- Settings with a blank language, and with a fixed id that the first operation gets as well. -/
def Sample.clashing : Settings :=
  { Settings.deterministic with configId := some "op-1", defaultLanguage := " " }

/-- The sample is accepted as it is. With a blank language and an id that is there twice, both are
reported, and nothing else. -/
theorem Program.check_lowered_sample :
    (∃ compiled, Sample.program.lower Sample.documents .empty .deterministic .sequential =
        .ok compiled ∧ Engine.Check.config compiled.config compiled.sourceMap = []) ∧
      ∃ compiled, Sample.program.lower Sample.documents .empty Sample.clashing .sequential =
          .ok compiled ∧
        Engine.Check.config compiled.config compiled.sourceMap =
          [⟨"language", "must not be empty"⟩, ⟨"operation op-1", "duplicate id"⟩] := by
  constructor
  · obtain ⟨compiled, h, hnone⟩ := Except.exists_ok_of_map (b := [])
      (f := fun c => Engine.Check.blankTexts c.config ++ Engine.Check.clashes c.config)
      (m := Sample.program.lower Sample.documents .empty .deterministic .sequential)
      (by decide +kernel)
    exact ⟨compiled, h, (Program.check_lowered h).2.trans hnone⟩
  · obtain ⟨compiled, h, htwo⟩ := Except.exists_ok_of_map
      (b := [⟨"language", "must not be empty"⟩, ⟨"operation op-1", "duplicate id"⟩])
      (f := fun c => Engine.Check.blankTexts c.config ++ Engine.Check.clashes c.config)
      (m := Sample.program.lower Sample.documents .empty Sample.clashing .sequential)
      (by decide +kernel)
    exact ⟨compiled, h, (Program.check_lowered h).2.trans htwo⟩

end Cuesheet
