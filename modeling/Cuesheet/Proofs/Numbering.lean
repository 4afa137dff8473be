import Cuesheet.Engine.Numbering
import Cuesheet.Proofs.Dict
import Cuesheet.Proofs.Separator
import Mathlib.Data.List.Perm.Basic

/-!
# What numbering does to a draft

Numbering walks through a draft in its own order and not in the order in which a configuration
lists its ids. The order of the walk is `Config.issues`, written once for every type of identity,
so that it reads the locations off a draft and the ids off a finished configuration.

The main statement is `Config.number_pairs`: a draft and its numbered configuration are the two
projections of **one** configuration of pairs, and the pairs in the order of the walk are those that
`assign` makes. Whatever is said about ids and locations afterwards is said about these pairs, and
no later proof opens `Config.number` again. Nothing here asks the supply to give different ids; that
is `Numbering.entries_after`, which needs it.
-/

set_option autoImplicit false

namespace Cuesheet.Engine

/-! ## The order of issue -/

section

variable {ι κ : Type}

/-- The entities of an operation, each with the kind its id is issued for. -/
def Operation.issues (o : Operation ι) : List (String × ι) := [("op", o.id)]

/-- The entities of an action: its operations, then the action. -/
def Action.issues (a : Action ι) : List (String × ι) :=
  a.start.flatMap Operation.issues ++ (a.finish.flatMap Operation.issues ++ [("action", a.id)])

/-- The entities of an event action: its operations, then the event action. -/
def EventAction.issues (a : EventAction ι) : List (String × ι) :=
  a.start.flatMap Operation.issues ++ [("event-action", a.id)]

/-- The entities of a timeline action: its operations, then the timeline action. -/
def TimelineAction.issues (a : TimelineAction ι) : List (String × ι) :=
  a.start.flatMap Operation.issues ++
    (a.finish.flatMap Operation.issues ++ [("timeline-action", a.id)])

/-- The entities of a timeline: the timeline, then its actions. -/
def Timeline.issues (t : Timeline ι) : List (String × ι) :=
  ("timeline", t.id) :: t.actions.flatMap TimelineAction.issues

/-- The entity of a driver. -/
def ProviderSetting.issues (entry : String × ProviderSetting ι) : List (String × ι) :=
  [("timeline-provider", entry.2.id)]

/-- The entities of a configuration in the order in which their ids are issued, the configuration
itself last. -/
def Config.issues (c : Config ι) : List (String × ι) :=
  c.initActions.flatMap Action.issues ++ (c.actions.flatMap Action.issues ++
    (c.eventActions.flatMap EventAction.issues ++ (c.timelines.flatMap Timeline.issues ++
      (c.providers.flatMap ProviderSetting.issues ++ [("config", c.id)]))))

end

/-- The ids that a supply gives to entities when `issued` ids came before, with the identities that
the entities had. -/
def assign {ι : Type} (supply : IdSupply) : (issued : Nat) → List (String × ι) →
    List (String × String × ι)
  | _, [] => []
  | issued, (kind, x) :: rest =>
    (kind, supply kind (issued + 1), x) :: assign supply (issued + 1) rest

/-- Ids are issued one after the other, so behind some entities counting goes on from where they
left it. -/
theorem assign_append {ι : Type} (supply : IdSupply) :
    ∀ (xs ys : List (String × ι)) (issued : Nat),
      assign supply issued (xs ++ ys) =
        assign supply issued xs ++ assign supply (issued + xs.length) ys
  | [], ys, issued => by simp [assign]
  | (kind, x) :: xs, ys, issued => by
    have hlen : issued + 1 + xs.length = issued + (xs.length + 1) := by omega
    simp [assign, assign_append supply xs ys (issued + 1), hlen]

namespace Numbering

/-- The numbering behind the given entities. -/
def after (supply : IdSupply) : Numbering → List (String × Location) → Numbering
  | n, [] => n
  | n, (kind, location) :: rest => after supply (issue supply kind location n).2 rest

theorem after_append (supply : IdSupply) : ∀ (xs ys : List (String × Location)) (n : Numbering),
    n.after supply (xs ++ ys) = (n.after supply xs).after supply ys
  | [], _, _ => rfl
  | _ :: xs, ys, _ => after_append supply xs ys _

@[simp] theorem issued_after (supply : IdSupply) :
    ∀ (xs : List (String × Location)) (n : Numbering),
      (n.after supply xs).issued = n.issued + xs.length
  | [], _ => rfl
  | (kind, location) :: xs, n => by
    rw [after, issued_after supply xs]
    simp only [issue, List.length_cons]
    omega

end Numbering

/-! ## Passes

A pass issues ids for a known list of entities, and what was issued is known of its result. The
rules follow the ways in which the numbering functions are put together; each hands on what is known
so far, so that a record is put together only at the end, where all its parts are there. -/

/-- The computation issues ids for `visits`, and `Q` holds of what it issues and its result. -/
def Pass {β : Type} (supply : IdSupply) (visits : List (String × Location)) (m : Numbered β)
    (Q : List (String × String × Location) → β → Prop) : Prop :=
  ∀ n : Numbering, (m n).2 = n.after supply visits ∧ Q (assign supply n.issued visits) (m n).1

namespace Pass

variable {α β : Type} {supply : IdSupply} {v w : List (String × Location)}
  {Q₁ : List (String × String × Location) → α → Prop}
  {Q : List (String × String × Location) → β → Prop}

theorem result {b : β} (h : Q [] b) : Pass supply [] (pure b) Q :=
  fun _ => ⟨rfl, h⟩

theorem issued {kind : String} {location : Location} :
    Pass supply [(kind, location)] (issue supply kind location)
      (fun pairs id => pairs = [(kind, id, location)]) :=
  fun _ => ⟨rfl, rfl⟩

/-- One pass after another. What the first has issued is known to the second, which has to say what
holds of both together. -/
theorem step {m : Numbered α} {k : α → Numbered β} (hm : Pass supply v m Q₁)
    (hk : ∀ a pairs, Q₁ pairs a → Pass supply w (k a) (fun rest => Q (pairs ++ rest))) :
    Pass supply (v ++ w) (m >>= k) Q := by
  intro n
  obtain ⟨hs₁, hq₁⟩ := hm n
  obtain ⟨hs₂, hq₂⟩ := hk _ _ hq₁ (m n).2
  have hbind : (m >>= k) n = k (m n).1 (m n).2 := rfl
  have hcount : (m n).2.issued = n.issued + v.length := by rw [hs₁, Numbering.issued_after]
  rw [hbind]
  refine ⟨?_, ?_⟩
  · rw [hs₂, hs₁, Numbering.after_append]
  · rw [assign_append, ← hcount]
    exact hq₂

/-- The last step: nothing is issued behind it. -/
theorem last {m : Numbered α} {f : α → β} (hm : Pass supply v m Q₁)
    (hf : ∀ a pairs, Q₁ pairs a → Q pairs (f a)) :
    Pass supply v (m >>= fun a => pure (f a)) Q := by
  rw [← List.append_nil v]
  refine hm.step fun a pairs ha => .result ?_
  rw [List.append_nil]
  exact hf a pairs ha

end Pass

/-- A draft and a result are the projections of one thing made of pairs, and the pairs in the order
of issue are `pairs`. -/
def Paired {δ β π : Type} (issues : π → List (String × String × Location)) (toDraft : π → δ)
    (toResult : π → β) (draft : δ) (pairs : List (String × String × Location)) (result : β) :
    Prop :=
  ∃ p, toDraft p = draft ∧ toResult p = result ∧ issues p = pairs

/-- A list is numbered entity by entity. The two equations are those of each numbering function for
lists, so the induction is done once for all of them. -/
theorem Pass.list {δ β π : Type} {supply : IdSupply} {number : δ → Numbered β}
    {numberList : List δ → Numbered (List β)} {visits : δ → List (String × Location)}
    {issues : π → List (String × String × Location)} {toDraft : π → δ} {toResult : π → β}
    (hnil : numberList [] = pure [])
    (hcons : ∀ d ds, numberList (d :: ds) =
      number d >>= fun b => numberList ds >>= fun bs => pure (b :: bs))
    (h : ∀ d, Pass supply (visits d) (number d) (Paired issues toDraft toResult d)) :
    ∀ ds, Pass supply (ds.flatMap visits) (numberList ds)
      (Paired (List.flatMap issues) (List.map toDraft) (List.map toResult) ds)
  | [] => by
    rw [hnil]
    exact .result ⟨[], rfl, rfl, rfl⟩
  | d :: ds => by
    rw [hcons, List.flatMap_cons]
    refine (h d).step fun b pairs ⟨p, hd, hb, hp⟩ => ?_
    refine (Pass.list hnil hcons h ds).last fun bs rest ⟨ps, hds, hbs, hps⟩ => ?_
    exact ⟨p :: ps, by simp [hd, hds], by simp [hb, hbs], by simp [hp, hps]⟩

/-! ## The numbering functions are passes -/

section

variable (supply : IdSupply)

/-- The rules applied to each kind of record, in the order in which its fields are numbered.
`Prod.fst` of a pair is the new id and `Prod.snd` the location. -/
theorem Operation.number_pass (o : Operation Location) :
    Pass supply o.issues (o.number supply)
      (Paired Operation.issues (Operation.map Prod.snd) (Operation.map Prod.fst) o) := by
  refine Pass.issued.last ?_
  rintro id pairs rfl
  exact ⟨⟨(id, o.id), o.name, o.data⟩, rfl, rfl, rfl⟩

theorem Operation.numberList_pass :
    ∀ os : List (Operation Location), Pass supply (os.flatMap Operation.issues)
      (Operation.numberList supply os)
      (Paired (List.flatMap Operation.issues) (List.map (Operation.map Prod.snd))
        (List.map (Operation.map Prod.fst)) os) :=
  Pass.list rfl (fun _ _ => rfl) (Operation.number_pass supply)

theorem Action.number_pass (a : Action Location) :
    Pass supply a.issues (a.number supply)
      (Paired Action.issues (Action.map Prod.snd) (Action.map Prod.fst) a) := by
  refine (Operation.numberList_pass supply a.start).step ?_
  rintro _ _ ⟨start, hstart, rfl, rfl⟩
  refine (Operation.numberList_pass supply a.finish).step ?_
  rintro _ _ ⟨finish, hfinish, rfl, rfl⟩
  refine Pass.issued.last ?_
  rintro id _ rfl
  exact ⟨⟨(id, a.id), a.name, start, finish⟩, by simp [Action.map, hstart, hfinish], rfl, rfl⟩

theorem Action.numberList_pass :
    ∀ actions : List (Action Location), Pass supply (actions.flatMap Action.issues)
      (Action.numberList supply actions)
      (Paired (List.flatMap Action.issues) (List.map (Action.map Prod.snd))
        (List.map (Action.map Prod.fst)) actions) :=
  Pass.list rfl (fun _ _ => rfl) (Action.number_pass supply)

theorem EventAction.number_pass (a : EventAction Location) :
    Pass supply a.issues (a.number supply)
      (Paired EventAction.issues (EventAction.map Prod.snd) (EventAction.map Prod.fst) a) := by
  refine (Operation.numberList_pass supply a.start).step ?_
  rintro _ _ ⟨start, hstart, rfl, rfl⟩
  refine Pass.issued.last ?_
  rintro id _ rfl
  exact ⟨⟨(id, a.id), a.name, a.eventName, a.eventTopic, start⟩,
    by simp [EventAction.map, hstart], rfl, rfl⟩

theorem EventAction.numberList_pass :
    ∀ actions : List (EventAction Location), Pass supply (actions.flatMap EventAction.issues)
      (EventAction.numberList supply actions)
      (Paired (List.flatMap EventAction.issues) (List.map (EventAction.map Prod.snd))
        (List.map (EventAction.map Prod.fst)) actions) :=
  Pass.list rfl (fun _ _ => rfl) (EventAction.number_pass supply)

theorem TimelineAction.number_pass (a : TimelineAction Location) :
    Pass supply a.issues (a.number supply)
      (Paired TimelineAction.issues (TimelineAction.map Prod.snd) (TimelineAction.map Prod.fst)
        a) := by
  refine (Operation.numberList_pass supply a.start).step ?_
  rintro _ _ ⟨start, hstart, rfl, rfl⟩
  refine (Operation.numberList_pass supply a.finish).step ?_
  rintro _ _ ⟨finish, hfinish, rfl, rfl⟩
  refine Pass.issued.last ?_
  rintro id _ rfl
  exact ⟨⟨(id, a.id), a.name, a.window, start, finish⟩,
    by simp [TimelineAction.map, hstart, hfinish], rfl, rfl⟩

theorem TimelineAction.numberList_pass :
    ∀ actions : List (TimelineAction Location),
      Pass supply (actions.flatMap TimelineAction.issues) (TimelineAction.numberList supply actions)
        (Paired (List.flatMap TimelineAction.issues) (List.map (TimelineAction.map Prod.snd))
          (List.map (TimelineAction.map Prod.fst)) actions) :=
  Pass.list rfl (fun _ _ => rfl) (TimelineAction.number_pass supply)

theorem Timeline.number_pass (t : Timeline Location) :
    Pass supply t.issues (t.number supply)
      (Paired Timeline.issues (Timeline.map Prod.snd) (Timeline.map Prod.fst) t) := by
  refine Pass.issued.step (w := t.actions.flatMap TimelineAction.issues) ?_
  rintro id _ rfl
  refine (TimelineAction.numberList_pass supply t.actions).last ?_
  rintro _ _ ⟨actions, hactions, rfl, rfl⟩
  exact ⟨⟨(id, t.id), t.uri, t.type, t.duration, t.loops, t.selector, actions⟩,
    by simp [Timeline.map, hactions], rfl, rfl⟩

theorem Timeline.numberList_pass :
    ∀ timelines : List (Timeline Location), Pass supply (timelines.flatMap Timeline.issues)
      (Timeline.numberList supply timelines)
      (Paired (List.flatMap Timeline.issues) (List.map (Timeline.map Prod.snd))
        (List.map (Timeline.map Prod.fst)) timelines) :=
  Pass.list rfl (fun _ _ => rfl) (Timeline.number_pass supply)

/-- The drivers are numbered in one function, which has no function for a single driver. -/
theorem ProviderSetting.numberList_pass :
    ∀ providers : Dict (ProviderSetting Location),
      Pass supply (providers.flatMap ProviderSetting.issues)
        (ProviderSetting.numberList supply providers)
        (Paired (List.flatMap ProviderSetting.issues)
          (List.map fun entry => (entry.1, entry.2.map Prod.snd))
          (List.map fun entry => (entry.1, entry.2.map Prod.fst)) providers)
  | [] => .result ⟨[], rfl, rfl, rfl⟩
  | (type, p) :: rest => by
    refine Pass.issued.step (w := rest.flatMap ProviderSetting.issues) ?_
    rintro id _ rfl
    refine (ProviderSetting.numberList_pass rest).last ?_
    rintro _ _ ⟨others, hothers, rfl, rfl⟩
    exact ⟨(type, ⟨(id, p.id), p.name⟩) :: others, by rw [List.map_cons, hothers]; rfl, rfl, rfl⟩

/-- **Numbering a configuration is one pass over its entities,** in the order of `Config.issues`.
Without a fixed id, since then the id of the configuration is issued like all others. -/
theorem Config.number_pass (c : Config Location) :
    Pass supply c.issues (c.number supply none)
      (Paired Config.issues (Config.map Prod.snd) (Config.map Prod.fst) c) := by
  refine (Action.numberList_pass supply c.initActions).step ?_
  rintro _ _ ⟨initActions, hinit, rfl, rfl⟩
  refine (Action.numberList_pass supply c.actions).step ?_
  rintro _ _ ⟨actions, hactions, rfl, rfl⟩
  refine (EventAction.numberList_pass supply c.eventActions).step ?_
  rintro _ _ ⟨eventActions, hevents, rfl, rfl⟩
  refine (Timeline.numberList_pass supply c.timelines).step ?_
  rintro _ _ ⟨timelines, htimelines, rfl, rfl⟩
  refine (ProviderSetting.numberList_pass supply c.providers).step ?_
  rintro _ _ ⟨providers, hproviders, rfl, rfl⟩
  refine Pass.issued.last ?_
  rintro id _ rfl
  exact ⟨⟨(id, c.id), c.engine, c.containerSelector, c.language, c.availableLanguages,
    c.layoutTemplate, c.cssFiles, initActions, actions, eventActions, timelines, providers⟩,
    by simp [Config.map, hinit, hactions, hevents, htimelines, hproviders], rfl, rfl⟩

end

/-- **A draft and its numbered configuration are two projections of one configuration of pairs.** A
fixed id takes the place of the last one and changes nothing else, so this follows from the case
without one. -/
theorem Config.number_pairs (supply : IdSupply) (fixed : Option String) (c : Config Location)
    (n : Numbering) :
    ∃ p : Config (String × Location), p.map Prod.snd = c ∧
      p.map Prod.fst = (c.number supply fixed n).1 := by
  obtain ⟨p, hdraft, hresult, -⟩ := (Config.number_pass supply c n).2
  cases fixed with
  | none => exact ⟨p, hdraft, hresult⟩
  | some id =>
    have hfixed : (c.number supply (some id) n).1 = { (c.number supply none n).1 with id := id } :=
      rfl
    refine ⟨{ p with id := (id, p.id.2) }, ?_, ?_⟩
    · rw [← hdraft]
      rfl
    · rw [hfixed, ← hresult]
      rfl

/-! ## Supplies that never repeat -/

/-- Different numbers give different ids, whatever the kinds. -/
def IdSupply.Distinct (supply : IdSupply) : Prop :=
  ∀ kind kind' m n, supply kind m = supply kind' n → m = n

/-- The number of a sequential id stands behind its last hyphen, so kinds with hyphens in them do
no harm. -/
theorem IdSupply.sequential_distinct : IdSupply.sequential.Distinct := by
  intro kind kind' m n h
  have hparts := Text.eq_of_append_separator_eq (c := '-') (Text.not_mem_toString rfl m)
    (Text.not_mem_toString rfl n) h
  exact Text.toString_injective hparts.2

section

variable {ι : Type} {supply : IdSupply}

/-- Every id that is issued has a number, and a later one than all before. -/
theorem exists_number_of_mem_assign :
    ∀ {xs : List (String × ι)} {issued : Nat} {e : String × String × ι},
      e ∈ assign supply issued xs → ∃ m, issued < m ∧ e.2.1 = supply e.1 m
  | (kind, x) :: xs, issued, e, h => by
    rcases List.mem_cons.mp h with rfl | h
    · exact ⟨issued + 1, by omega, rfl⟩
    · obtain ⟨m, hm, he⟩ := exists_number_of_mem_assign h
      exact ⟨m, by omega, he⟩

theorem nodup_ids_assign (hd : supply.Distinct) :
    ∀ (xs : List (String × ι)) (issued : Nat),
      ((assign supply issued xs).map fun e => e.2.1).Nodup
  | [], _ => List.nodup_nil
  | (kind, x) :: xs, issued => by
    simp only [assign, List.map_cons, List.nodup_cons]
    refine ⟨?_, nodup_ids_assign hd xs _⟩
    intro hmem
    obtain ⟨e, he, hid⟩ := List.mem_map.mp hmem
    obtain ⟨m, hm, hsupply⟩ := exists_number_of_mem_assign he
    have : m = issued + 1 := hd _ _ _ _ (hsupply.symm.trans hid)
    omega

end

/-- Every id in the source map has a number that was issued already. -/
def Numbering.UpToDate (supply : IdSupply) (n : Numbering) : Prop :=
  ∀ id ∈ Dict.keys n.sourceMap.entries, ∃ kind m, m ≤ n.issued ∧ id = supply kind m

theorem Numbering.not_mem_keys {supply : IdSupply} (hd : supply.Distinct) {n : Numbering}
    (hn : n.UpToDate supply) (kind : String) :
    supply kind (n.issued + 1) ∉ Dict.keys n.sourceMap.entries := by
  intro hmem
  obtain ⟨kind', m, hm, hid⟩ := hn _ hmem
  have := hd _ _ _ _ hid
  omega

/-- The invariant of `Numbering.entries_after`, for one id. -/
theorem Numbering.UpToDate.issue {supply : IdSupply} (hd : supply.Distinct) {n : Numbering}
    (hn : n.UpToDate supply) (kind : String) (location : Location) :
    (issue supply kind location n).2.UpToDate supply := by
  intro id hid
  have hset := Dict.set_of_not_mem_keys location (not_mem_keys hd hn kind)
  simp only [Engine.issue, SourceMap.insert, hset, Dict.keys, List.map_append, List.map_cons,
    List.map_nil, List.mem_append, List.mem_singleton] at hid ⊢
  rcases hid with hid | rfl
  · obtain ⟨kind', m, hm, he⟩ := hn id hid
    exact ⟨kind', m, by omega, he⟩
  · exact ⟨kind, n.issued + 1, by omega, rfl⟩

/-- **The source map holds what was issued, in the order of issue.** An id is never issued twice,
so no entry is written over. -/
theorem Numbering.entries_after {supply : IdSupply} (hd : supply.Distinct) :
    ∀ (xs : List (String × Location)) (n : Numbering), n.UpToDate supply →
      (n.after supply xs).sourceMap.entries =
        n.sourceMap.entries ++ (assign supply n.issued xs).map Prod.snd
  | [], n, _ => by simp [after, assign]
  | (kind, location) :: xs, n, hn => by
    have hset := Dict.set_of_not_mem_keys location (not_mem_keys hd hn kind)
    rw [after, entries_after hd xs _ (hn.issue hd kind location)]
    simp [Engine.issue, SourceMap.insert, hset, assign]

/-! ## Issued ids and listed ids

`Config.ids` lists the ids kind by kind, `Config.issues` as they were issued. -/

section

variable {ι κ : Type}

/-- What stands behind the parts of each entry of a list can be taken in front of all of them. -/
theorem perm_flatMap_append_singleton {α β : Type} (parts : α → List β) (own : α → β)
    (l : List α) : (l.flatMap fun a => parts a ++ [own a]).Perm (l.map own ++ l.flatMap parts) :=
  calc
    (l.flatMap fun a => parts a ++ [own a]).Perm
        (l.flatMap parts ++ l.flatMap fun a => [own a]) :=
      (List.flatMap_append_perm l parts fun a => [own a]).symm
    _ = l.flatMap parts ++ l.map own := by rw [← List.map_eq_flatMap]
    _ |>.Perm (l.map own ++ l.flatMap parts) := List.perm_append_comm

theorem Action.issues_perm (actions : List (Action ι)) :
    ((actions.flatMap Action.issues).map Prod.snd).Perm
      (actions.map (·.id) ++ actions.flatMap fun a => (a.start ++ a.finish).map (·.id)) := by
  refine List.Perm.trans (List.Perm.of_eq ?_)
    (perm_flatMap_append_singleton (fun a => (a.start ++ a.finish).map (·.id)) (·.id) actions)
  simp [Action.issues, Operation.issues, List.map_flatMap, ← List.map_eq_flatMap]

theorem EventAction.issues_perm (actions : List (EventAction ι)) :
    ((actions.flatMap EventAction.issues).map Prod.snd).Perm
      (actions.map (·.id) ++ actions.flatMap fun a => a.start.map (·.id)) := by
  refine List.Perm.trans (List.Perm.of_eq ?_)
    (perm_flatMap_append_singleton (fun a => a.start.map (·.id)) (·.id) actions)
  simp [EventAction.issues, Operation.issues, List.map_flatMap, ← List.map_eq_flatMap]

theorem TimelineAction.issues_perm (actions : List (TimelineAction ι)) :
    ((actions.flatMap TimelineAction.issues).map Prod.snd).Perm
      (actions.map (·.id) ++ actions.flatMap fun a => (a.start ++ a.finish).map (·.id)) := by
  refine List.Perm.trans (List.Perm.of_eq ?_)
    (perm_flatMap_append_singleton (fun a => (a.start ++ a.finish).map (·.id)) (·.id) actions)
  simp [TimelineAction.issues, Operation.issues, List.map_flatMap, ← List.map_eq_flatMap]

theorem Timeline.issues_perm (timelines : List (Timeline ι)) :
    ((timelines.flatMap Timeline.issues).map Prod.snd).Perm
      ((timelines.flatMap fun t => t.id :: t.actions.map (·.id)) ++
        timelines.flatMap fun t =>
          t.actions.flatMap fun a => (a.start ++ a.finish).map (·.id)) := by
  refine List.Perm.trans ?_ (List.flatMap_append_perm timelines _ _).symm
  simp only [Timeline.issues, List.map_flatMap, List.map_cons, List.cons_append]
  refine List.Perm.flatMap_left _ fun t _ => ?_
  refine List.Perm.cons _ (List.Perm.trans (List.Perm.of_eq ?_)
    (TimelineAction.issues_perm t.actions))
  rw [List.map_flatMap]

/-- The listed ids are the issued ones, in another order. They are issued with the operations of an
action before the action, and the configuration itself last; the list starts with the configuration
and has all operations at its end. -/
theorem Config.ids_perm_issues (c : Config ι) :
    (c.ids.map Prod.fst).Perm (c.issues.map Prod.snd) := by
  classical
  rw [List.perm_iff_count]
  intro x
  have hinit := (Action.issues_perm c.initActions).count_eq x
  have hactions := (Action.issues_perm c.actions).count_eq x
  have hevents := (EventAction.issues_perm c.eventActions).count_eq x
  have htimelines := (Timeline.issues_perm c.timelines).count_eq x
  have hproviders : ((c.providers.flatMap ProviderSetting.issues).map Prod.snd).count x =
      ((Dict.values c.providers).map (·.id)).count x := by
    simp [ProviderSetting.issues, Dict.values, List.map_flatMap, ← List.map_eq_flatMap,
      Function.comp_def]
  simp only [Config.ids, Config.operations, Config.issues, List.map_append, List.map_flatMap,
    List.map_map, List.map_cons, List.map_nil, Function.comp_def, List.flatMap_append,
    List.count_append] at *
  omega

theorem Config.operations_map (f : ι → κ) (c : Config ι) :
    (c.map f).operations = c.operations.map (Operation.map f) := by
  simp [Config.operations, Config.map, Action.map, EventAction.map, Timeline.map,
    TimelineAction.map, List.map_flatMap, List.flatMap_map]

theorem Config.ids_map (f : ι → κ) (c : Config ι) :
    (c.map f).ids = c.ids.map fun entry => (f entry.1, entry.2) := by
  simp [Config.ids, Config.operations, Config.map, Action.map, EventAction.map, Timeline.map,
    TimelineAction.map, ProviderSetting.map, Operation.map, Dict.values, List.map_flatMap,
    List.flatMap_map, Function.comp_def]

end

/-- With ids that never repeat and none fixed, the source map is the list of pairs, in the order in
which they were issued. -/
theorem Config.withIds_pairs {supply : IdSupply} (hd : supply.Distinct) (c : Config Location) :
    ∃ p : Config (String × Location), p.map Prod.snd = c ∧
      p.map Prod.fst = (c.withIds supply none).1 ∧ p.issues = assign supply 0 c.issues ∧
      (c.withIds supply none).2.entries = (assign supply 0 c.issues).map Prod.snd := by
  obtain ⟨hstate, p, hdraft, hresult, hpairs⟩ := Config.number_pass supply c ⟨0, .empty⟩
  have hstart : Numbering.UpToDate supply ⟨0, .empty⟩ := fun id hid => absurd hid (by
    simp [SourceMap.empty, Dict.keys])
  refine ⟨p, hdraft, hresult, hpairs, ?_⟩
  have hmap : (c.withIds supply none).2 = ((c.number supply none) ⟨0, .empty⟩).2.sourceMap := rfl
  rw [hmap, hstate, Numbering.entries_after hd c.issues ⟨0, .empty⟩ hstart]
  rfl

end Cuesheet.Engine
