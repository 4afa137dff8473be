import Cuesheet.Proofs.Numbering
import Cuesheet.Proofs.Sites.Program

/-!
# Ids and the source map

With sequential ids and no fixed id, the ids of a lowered program are pairwise distinct, the source
map has exactly these ids, and it holds for each of them the location of the node that the entity
was lowered from.

Two lists carry the argument. The list of pairs (`Config.withIds_pairs`) ties an id to the location
that was given when the id was issued; the list of sites (`Program.Drafted.ids_eq`) ties that
location to a node of the source.
-/

set_option autoImplicit false

namespace Cuesheet

namespace Engine

variable {supply : IdSupply}

/-- The keys of the source map are the ids of the configuration, and none of them stands there
twice. -/
theorem Config.withIds_keys (hd : supply.Distinct) (c : Config Location) :
    (c.withIds supply none).2.ids.Nodup ∧
      (c.withIds supply none).2.ids.Perm ((c.withIds supply none).1.ids.map Prod.fst) := by
  obtain ⟨p, -, hresult, hissues, hentries⟩ := Config.withIds_pairs hd c
  have hkeys : (c.withIds supply none).2.ids = (assign supply 0 c.issues).map fun e => e.2.1 := by
    rw [SourceMap.ids, Dict.keys, hentries, List.map_map]
    rfl
  refine ⟨?_, ?_⟩
  · rw [hkeys]
    exact nodup_ids_assign hd c.issues 0
  · have hperm := (p.ids_perm_issues.map Prod.fst).symm
    rw [hkeys, ← hissues, ← hresult, Config.ids_map]
    simpa [Function.comp_def] using hperm

/-- The source map has, for the id of every entity, the location that the entity has in the draft:
the two configurations list their entities in the same order. -/
theorem Config.withIds_get? (hd : supply.Distinct) (c : Config Location) :
    List.Forall₂ (fun (entry : Location × String) (listed : String × String) =>
        (c.withIds supply none).2.get? listed.1 = some entry.1 ∧ listed.2 = entry.2)
      c.ids (c.withIds supply none).1.ids := by
  obtain ⟨p, hdraft, hresult, hissues, hentries⟩ := Config.withIds_pairs hd c
  have hdraftIds : c.ids = p.ids.map fun entry => (entry.1.2, entry.2) := by
    rw [← hdraft, Config.ids_map]
  rw [← hresult, Config.ids_map, hdraftIds, List.forall₂_map_left_iff, List.forall₂_map_right_iff,
    List.forall₂_same]
  intro entry hentry
  have hissued : entry.1 ∈ p.issues.map Prod.snd :=
    p.ids_perm_issues.mem_iff.mp (List.mem_map_of_mem hentry)
  refine ⟨Dict.get?_of_mem (Config.withIds_keys hd c).1 ?_, rfl⟩
  rw [hentries, ← hissues]
  exact hissued

end Engine

/-- **Ids are distinct, the source map has exactly these ids, and each has the location of its
node.** `Program.sites` says for every listed id which node its entity was lowered from; that an
operation really is one of its site's stands beside it. The source map is the log of the ids that
were issued, with the locations they were issued for, so nothing in it was written over. -/
theorem Program.lower_ids_located {p : Program} {documents : Documents} {assets : Assets}
    {settings : Settings} {compiled : Compiled} (hfixed : settings.configId = none)
    (h : p.lower documents assets settings .sequential = .ok compiled) :
    (compiled.config.ids.map Prod.fst).Nodup ∧
      (∀ id, id ∈ compiled.sourceMap.ids ↔ id ∈ compiled.config.ids.map Prod.fst) ∧
      compiled.sourceMap.size = compiled.config.ids.length ∧
      List.Forall₂ (fun (site : Site × String) (listed : String × String) =>
          compiled.sourceMap.get? listed.1 = some site.1.location ∧ listed.2 = site.2)
        (p.sites documents) compiled.config.ids ∧
      List.Forall₂ (fun (site : Site) (o : Engine.Operation String) =>
          site.Emits (.ofProgram documents p) o.name o.data)
        (p.operationSites documents) compiled.config.operations ∧
      ∃ draft, p.draft documents assets settings = .ok draft ∧
        compiled.sourceMap.entries =
          (Engine.assign .sequential 0 draft.config.issues).map Prod.snd := by
  obtain ⟨draft, hdraft, hconfig, hmap, -⟩ := Program.lower_ok h
  rw [hfixed] at hconfig hmap
  have hd := Engine.IdSupply.sequential_distinct
  -- The ids that were issued are those that the configuration lists, in another order.
  obtain ⟨hnodup, hperm⟩ := Engine.Config.withIds_keys hd draft.config
  rw [← hconfig, ← hmap] at hperm
  rw [← hmap] at hnodup
  refine ⟨hperm.nodup_iff.mp hnodup, fun id => hperm.mem_iff, ?_, ?_,
    Program.lower_operations h, draft, hdraft, ?_⟩
  · simpa [Engine.SourceMap.size, Engine.SourceMap.ids, Dict.keys] using hperm.length_eq
  · have hlocated := Engine.Config.withIds_get? hd draft.config
    rw [← hconfig, ← hmap, ← (Program.draft_ok hdraft).ids_eq,
      List.forall₂_map_left_iff] at hlocated
    exact hlocated
  · obtain ⟨-, -, -, -, hentries⟩ := Engine.Config.withIds_pairs hd draft.config
    rw [hmap]
    exact hentries

/-! ## A program with every kind of entity -/

namespace Sample

/-- A call without arguments. -/
def call (name : String) (n : UInt32) : Call := ⟨name, [], .onLine n⟩

/-- The statement that calls something with one text. -/
def callWith (name text : String) (n : UInt32) : Stmt :=
  .call ⟨name, [.string text (.onLine n)], .onLine n⟩

/-- An action without parameters. -/
def action (name : String) (body : List Stmt) (n : UInt32) : Action :=
  ⟨name, [], .regular body, .onLine n⟩

/-- Effects. `helper` calls itself and goes to the network inside a loop. -/
def effects : Library where
  name := "effects"
  imports := [⟨"./net.cue", [⟨"ping", some "probe", .onLine 1⟩], .onLine 1⟩]
  actions := [
    action "fade"
      [.branch (.system "ready" (.onLine 3)) [.call (call "helper" 4)] none (.onLine 3)] 2,
    action "helper" [
      .loop "x" (.array [] (.onLine 6)) [.call (call "probe" 7), .call (call "helper" 8)]
        (.onLine 6)] 5]

/-- The network, which imports effects back. -/
def net : Library where
  name := "net"
  imports := [⟨"./effects.cue", [⟨"helper", some "assist", .onLine 9⟩], .onLine 9⟩]
  actions := [action "ping" [.call (call "assist" 11)] 10]

/-- The two libraries. -/
def documents : Documents := .ofList [("lib/effects.cue", effects), ("lib/net.cue", net)]

/-- A program with a global that is set at run time, an action of its own that has the name of a
helper, an event action, and two timelines of one family. -/
def program : Program where
  location := .onLine 20
  elements := [
    .libraryImport ⟨"./lib/effects.cue", [⟨"fade", some "appear", .onLine 21⟩], .onLine 21⟩,
    .declaration ⟨"now", .system "time" (.onLine 22), .onLine 22⟩,
    .action (action "helper" [.call (call "appear" 24)] 23),
    .eventAction ⟨"onClick", "click", none, [], [.call (call "helper" 26)], .onLine 25⟩,
    .timeline ⟨"main", "#stage", .raf, none, [
      .timed (.literal 0 .s (.onLine 28)) (.literal 2 .s (.onLine 28)) (.named (call "appear" 28))
        (.onLine 28),
      .sequence [⟨call "helper" 30, .literal 1 .s (.onLine 30), .onLine 30⟩] (.onLine 29),
      .stagger (.literal 1 .s (.onLine 31))
        (.array [.null (.onLine 31), .null (.onLine 31)] (.onLine 31))
        (.inline [.call (call "appear" 32)] []) (.literal 1 .s (.onLine 31)) (.onLine 31)],
        .onLine 27⟩,
    .timeline ⟨"second", "#other", .custom, none, [], .onLine 33⟩]

end Sample

/-- The sample has thirty-nine entities, and the statement holds of it. -/
theorem Program.lower_ids_located_sample :
    ∃ compiled, Sample.program.lower Sample.documents .empty .deterministic .sequential =
        .ok compiled ∧
      (compiled.config.ids.map Prod.fst).Nodup ∧
      compiled.sourceMap.size = 39 := by
  obtain ⟨compiled, h⟩ := Except.exists_ok (m := Sample.program.lower Sample.documents .empty
    .deterministic .sequential) (by decide +kernel)
  obtain ⟨hnodup, -, hsize, hsites, -⟩ := Program.lower_ids_located rfl h
  refine ⟨compiled, h, hnodup, ?_⟩
  rw [hsize, ← hsites.length_eq]
  decide +kernel

end Cuesheet
