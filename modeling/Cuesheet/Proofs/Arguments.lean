import Cuesheet.Operation.Arguments
import Cuesheet.Operation.Audit
import Cuesheet.Proofs.Dict
import Cuesheet.Proofs.Except

/-!
# Data that fits a signature

Binding arguments gives data that fits the signature: no required parameter is left out, and what is
stored under the name of a parameter is accepted by it. Arguments are bound one by one, by position
and then by name, and each step keeps what was bound before within what is accepted (`Accepts.set`).

Two things are asked of the signature: its parameters have distinct names, and the required ones
come first. Both are rules of the audit, so a signature whose parameters have no problems keeps
them.
-/

set_option autoImplicit false

namespace Cuesheet

/-! ## Signatures and data -/

/-- The parameter may hold the value: it is accepted, or only known at run time. -/
def Parameter.Takes (p : Parameter) (value : Json) : Prop :=
  p.accepted.accepts value = true ∨ Runtime.isRuntime value = true

instance (p : Parameter) (value : Json) : Decidable (p.Takes value) :=
  inferInstanceAs (Decidable (_ ∨ _))

namespace Signature

/-- Parameters have distinct names, and none is required behind one that is not. -/
structure WellFormed (op : Signature) : Prop where
  distinct : (op.parameters.map (·.name)).Nodup
  required_first : op.parameters.Pairwise fun p q => q.isRequired = true → p.isRequired = true

/-- Whatever stands under the name of a parameter may stand there. -/
def Accepts (op : Signature) (data : Dict Json) : Prop :=
  ∀ entry ∈ data, ∀ p ∈ op.parameters, p.name = entry.1 → p.Takes entry.2

/-- No required parameter is left out. -/
def Supplies (op : Signature) (data : Dict Json) : Prop :=
  ∀ p ∈ op.parameters, p.isRequired = true → p.name ∈ Dict.keys data

/-- The data of an operation fits its signature. -/
def Fits (op : Signature) (data : Dict Json) : Prop := op.Supplies data ∧ op.Accepts data

instance (op : Signature) (data : Dict Json) : Decidable (op.Fits data) :=
  inferInstanceAs (Decidable ((∀ p ∈ op.parameters, _ → _) ∧ ∀ entry ∈ data, ∀ p ∈ op.parameters,
    p.name = entry.1 → p.Takes entry.2))

theorem WellFormed.eq_of_name {op : Signature} (hop : op.WellFormed) {p q : Parameter}
    (hp : p ∈ op.parameters) (hq : q ∈ op.parameters) (h : p.name = q.name) : p = q :=
  List.inj_on_of_nodup_map hop.distinct hp hq h

/-- Where there are no more than `count` required parameters, none stands behind the first `count`.
-/
theorem WellFormed.mem_take {op : Signature} (hop : op.WellFormed) {count : Nat}
    (hcount : op.requiredCount ≤ count) {p : Parameter} (hp : p ∈ op.parameters)
    (hrequired : p.isRequired = true) : p ∈ op.parameters.take count := by
  have hfirst := hop.required_first
  unfold requiredCount at hcount
  generalize op.parameters = parameters at hcount hp hfirst
  induction parameters generalizing count with
  | nil => cases hp
  | cons q parameters ih =>
    rw [List.pairwise_cons] at hfirst
    -- The one in front of a required parameter is required, so it is counted.
    have hq : q.isRequired = true := by
      rcases List.mem_cons.mp hp with rfl | hp
      · exact hrequired
      · exact hfirst.1 p hp hrequired
    have hcount : (parameters.filter (·.isRequired)).length + 1 ≤ count := by
      simpa [hq] using hcount
    obtain ⟨count, rfl⟩ : ∃ n, count = n + 1 := ⟨count - 1, by omega⟩
    rw [List.take_succ_cons]
    rcases List.mem_cons.mp hp with rfl | hp
    · exact List.mem_cons_self
    · exact List.mem_cons_of_mem _ (ih (by omega) hp hfirst.2)

/-! ## Binding -/

theorem checkType_ok_iff {op : Signature} {p : Parameter} {value : Json} :
    op.checkType p value = .ok () ↔ p.Takes value := by
  unfold checkType Parameter.Takes
  split <;> simp_all

theorem Accepts.nil (op : Signature) : op.Accepts [] := by
  intro entry hentry
  cases hentry

/-- One more entry keeps the data within what is accepted if the parameter of that name takes it. -/
theorem Accepts.set {op : Signature} {data : Dict Json} (hdata : op.Accepts data) {name : String}
    {value : Json} (h : ∀ p ∈ op.parameters, p.name = name → p.Takes value) :
    op.Accepts (Dict.set data name value) := by
  intro entry hentry
  rcases Dict.mem_set hentry with rfl | hentry
  · exact h
  · exact hdata entry hentry

theorem parameter?_eq_some {op : Signature} (hop : op.WellFormed) {p : Parameter}
    (hp : p ∈ op.parameters) : op.parameter? p.name = some p := by
  cases hfound : op.parameter? p.name with
  | none =>
    have := List.find?_eq_none.mp hfound p hp
    simp at this
  | some q =>
    have hname : q.name = p.name := by simpa using List.find?_some hfound
    rw [hop.eq_of_name (List.mem_of_find?_eq_some hfound) hp hname]

/-- Binding by position: the first parameters, as many as there are values, are added to the names,
and the data stays within what is accepted. -/
theorem bindPositional_ok {op : Signature} (hop : op.WellFormed) :
    ∀ {parameters : List Parameter} {values : List Json} {data result : Dict Json},
      parameters ⊆ op.parameters → op.bindPositional parameters values data = .ok result →
      op.Accepts data →
      op.Accepts result ∧ Dict.keys data ⊆ Dict.keys result ∧
        (parameters.take values.length).map (·.name) ⊆ Dict.keys result
  | [], values, data, result, _, h, hdata => by
    rw [bindPositional] at h
    · cases h
      simpa using hdata
    · simp
  | p :: parameters, [], data, result, _, h, hdata => by
    rw [bindPositional] at h
    · cases h
      simpa using hdata
    · simp
  | p :: parameters, value :: values, data, result, hsub, h, hdata => by
    rw [bindPositional] at h
    obtain ⟨⟨⟩, hcheck, h⟩ := Except.bind_ok h
    have hp : p ∈ op.parameters := hsub List.mem_cons_self
    -- No other parameter has the name, so the check of this one is enough.
    have htakes : ∀ q ∈ op.parameters, q.name = p.name → p.Takes value → q.Takes value :=
      fun q hq hname => hop.eq_of_name hq hp hname ▸ id
    have hset := hdata.set fun q hq hname => htakes q hq hname (checkType_ok_iff.mp hcheck)
    obtain ⟨haccepts, hkeys, hnames⟩ :=
      bindPositional_ok hop (List.subset_of_cons_subset hsub) h hset
    refine ⟨haccepts, ?_, ?_⟩
    · exact fun name hname => hkeys (Dict.mem_keys_set_iff.mpr (.inr hname))
    · rw [List.length_cons, List.take_succ_cons, List.map_cons, List.cons_subset]
      exact ⟨hkeys (Dict.mem_keys_set_iff.mpr (.inl rfl)), hnames⟩

theorem bindMembers_cons_ok {op : Signature} {name : String} {value : Json}
    {members : List (String × Json)} {data result : Dict Json}
    (h : op.bindMembers ((name, value) :: members) data = .ok result) :
    (∀ p, op.parameter? name = some p → p.Takes value) ∧
      op.bindMembers members (Dict.set data name value) = .ok result := by
  rw [bindMembers] at h
  cases hfound : op.parameter? name with
  | none =>
    rw [hfound] at h
    exact ⟨by simp, h⟩
  | some p =>
    rw [hfound] at h
    obtain ⟨⟨⟩, hcheck, h⟩ := Except.bind_ok h
    refine ⟨?_, h⟩
    rintro _ ⟨⟩
    exact checkType_ok_iff.mp hcheck

/-- Binding by name: all members are added, and the data stays within what is accepted. -/
theorem bindMembers_ok {op : Signature} (hop : op.WellFormed) :
    ∀ {members : List (String × Json)} {data result : Dict Json},
      op.bindMembers members data = .ok result → op.Accepts data →
      op.Accepts result ∧ Dict.keys data ⊆ Dict.keys result ∧
        Dict.keys members ⊆ Dict.keys result
  | [], data, result, h, hdata => by
    rw [bindMembers] at h
    cases h
    exact ⟨hdata, fun _ => id, by simp [Dict.keys]⟩
  | (name, value) :: members, data, result, h, hdata => by
    obtain ⟨htakes, h⟩ := bindMembers_cons_ok h
    have hset : op.Accepts (Dict.set data name value) := by
      refine hdata.set ?_
      rintro p hp rfl
      exact htakes p (parameter?_eq_some hop hp)
    obtain ⟨haccepts, hkeys, hnames⟩ := bindMembers_ok hop h hset
    refine ⟨haccepts, ?_, ?_⟩
    · exact fun other hother => hkeys (Dict.mem_keys_set_iff.mpr (.inr hother))
    · rw [Dict.keys, List.map_cons, List.cons_subset]
      exact ⟨hkeys (Dict.mem_keys_set_iff.mpr (.inl rfl)), hnames⟩

/-- A wrapper has a member for every required parameter that no position fills. -/
theorem splitWrapper?_supplies {op : Signature} {arguments positional : List Json}
    {members : Dict Json} (h : op.splitWrapper? arguments = some (positional, members))
    {p : Parameter} (hp : p ∈ op.parameters.drop positional.length)
    (hrequired : p.isRequired = true) : p.name ∈ Dict.keys members := by
  unfold splitWrapper? at h
  split at h
  · rename_i last hlast
    obtain ⟨entries, hentries, h⟩ := Option.map_eq_some_iff.mp h
    cases h
    unfold wrapper? at hentries
    split at hentries
    · rename_i object
      dsimp only at hentries
      split at hentries
      · rename_i hcond
        cases hentries
        simp only [Bool.and_eq_true, List.all_eq_true, List.mem_filter] at hcond
        exact Dict.isSome_get?_iff.mp (hcond.2 p ⟨hp, hrequired⟩)
      · cases hentries
    · cases hentries
  · cases h

/-- **What a call binds fits the signature:** every required parameter has a value, and every value
is one that its parameter takes. Without a wrapper the number of arguments sees to the first half,
since required parameters stand in front; with one the wrapper does. -/
theorem bind_fits {op : Signature} (hop : op.WellFormed) {arguments : List Json}
    {data : Dict Json} (h : op.bind arguments = .ok data) : op.Fits data := by
  unfold bind at h
  split at h
  · rename_i positional members hsplit
    obtain ⟨first, hfirst, h⟩ := Except.bind_ok h
    obtain ⟨haccepts, -, hnames⟩ :=
      bindPositional_ok hop (List.Subset.refl _) hfirst (.nil op)
    obtain ⟨haccepts, hkeys, hmembers⟩ := bindMembers_ok hop h haccepts
    refine ⟨fun p hp hrequired => ?_, haccepts⟩
    -- A required parameter is filled by position or by the wrapper.
    rw [← List.take_append_drop positional.length op.parameters, List.mem_append] at hp
    rcases hp with hp | hp
    · exact hkeys (hnames (List.mem_map_of_mem hp))
    · exact hmembers (splitWrapper?_supplies hsplit hp hrequired)
  · split at h
    · rename_i harity
      obtain ⟨haccepts, -, hnames⟩ := bindPositional_ok hop (List.Subset.refl _) h (.nil op)
      simp only [acceptsArity, Bool.and_eq_true, decide_eq_true_eq] at harity
      refine ⟨fun p hp hrequired => ?_, haccepts⟩
      exact hnames (List.mem_map_of_mem (hop.mem_take harity.1 hp hrequired))
    · cases h

end Signature

/-! ## The audit -/

namespace Catalogue

/-- **Parameters without problems are well-formed.** The names that the audit has seen do not come
again, and behind an optional parameter nothing is required. -/
theorem parameterProblems_eq_nil {operation : String} :
    ∀ {parameters : List Parameter} {seen : List String} {optional : Bool},
      parameterProblems operation seen optional parameters = [] →
      (∀ p ∈ parameters, p.name ∉ seen ∧ (optional = true → p.isRequired = false)) ∧
        (parameters.map (·.name)).Nodup ∧
        parameters.Pairwise fun p q => q.isRequired = true → p.isRequired = true
  | [], _, _, _ => by simp
  | p :: parameters, seen, optional, h => by
    simp only [parameterProblems, List.append_eq_nil_iff, ite_eq_right_iff, imp_false,
      List.cons_ne_nil, Bool.and_eq_true, not_and, Bool.not_eq_true, List.contains_eq_mem,
      decide_eq_false_iff_not] at h
    obtain ⟨⟨⟨-, hseen⟩, hlate⟩, hrest⟩ := h
    -- For the rest, the name of `p` has been seen, and something optional has if `p` is.
    obtain ⟨hall, hnodup, hfirst⟩ := parameterProblems_eq_nil hrest
    refine ⟨?_, ?_, ?_⟩
    · intro q hq
      rcases List.mem_cons.mp hq with rfl | hq
      · refine ⟨hseen, fun hoptional => ?_⟩
        cases hrequired : q.isRequired with
        | false => rfl
        | true => exact absurd hoptional (by simp [hlate hrequired])
      · obtain ⟨hfresh, hrequired⟩ := hall q hq
        exact ⟨fun hmem => hfresh (List.mem_cons_of_mem _ hmem), fun ho => hrequired (by simp [ho])⟩
    · rw [List.map_cons, List.nodup_cons]
      refine ⟨fun hmem => ?_, hnodup⟩
      obtain ⟨q, hq, hname⟩ := List.mem_map.mp hmem
      exact (hall q hq).1 (hname ▸ List.mem_cons_self)
    · refine List.pairwise_cons.mpr ⟨fun q hq hrequired => ?_, hfirst⟩
      by_contra hp
      exact absurd hrequired (by simp [(hall q hq).2 (by simp [hp])])

theorem parameterProblems_operations :
    ∀ op ∈ operations, parameterProblems op.name [] false op.parameters = [] := by
  decide +kernel

theorem wellFormed_of_lookup? {name : String} {op : Signature} (h : lookup? name = some op) :
    op.WellFormed := by
  have hproblems := parameterProblems_operations op (List.mem_of_find?_eq_some h)
  obtain ⟨-, hnodup, hfirst⟩ := parameterProblems_eq_nil hproblems
  exact ⟨hnodup, hfirst⟩

end Catalogue

end Cuesheet
