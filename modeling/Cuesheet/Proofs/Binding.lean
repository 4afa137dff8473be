import Cuesheet.Proofs.Arguments
import Mathlib.Data.List.Induction

/-!
# Binding by position and by name

A call has two ways to give its arguments, and one call can use both: values by position, and behind
them a wrapper whose members are taken by name. The two are brought to one form here.
`Signature.bound` lists what a call binds as named entries, in the order in which they are bound,
and `Signature.bind_eq` says that binding is going through this list, once the number of arguments
is in order.

Going through a list of named entries ends in one of two ways. Either every entry is accepted, and
all of them are set one after another, or there is a first entry that its parameter does not take,
and the error is about this parameter (`Signature.bindMembers_error_iff`). So the data of a call, if
there is any, is this list set in order, whatever the signature (`Signature.bind_ok_eq`).
-/

set_option autoImplicit false

namespace Cuesheet

namespace Dict

variable {α : Type}

/-- Entries whose names differ from one another are kept as they are. -/
theorem ofList_of_nodup {entries : List (String × α)} (h : (keys entries).Nodup) :
    ofList entries = entries := by
  induction entries using List.reverseRecOn with
  | nil => rfl
  | append_singleton entries entry ih =>
    rw [keys, List.map_append, List.nodup_append] at h
    have hnew : entry.1 ∉ keys entries := fun hmem => h.2.2 _ hmem _ (by simp) rfl
    unfold ofList at ih ⊢
    rw [List.foldl_append, ih h.1]
    exact set_of_not_mem_keys entry.2 hnew

end Dict

namespace Signature

variable {op : Signature}

/-! ## Named entries -/

/-- The complaint about a value that its parameter does not take. -/
def refusal (op : Signature) (p : Parameter) (value : Json) : ArgumentError :=
  .type op.name p.name p.accepted.describe value.kind.name

/-- Some parameter has the name of the entry and does not take its value. -/
def Refuses (op : Signature) (entry : String × Json) : Prop :=
  ∃ p ∈ op.parameters, p.name = entry.1 ∧ ¬ p.Takes entry.2

/-- Of the entries, the first that is refused is a value for the parameter `p`. -/
def FirstRefused (op : Signature) (entries : List (String × Json)) (p : Parameter) (value : Json) :
    Prop :=
  ∃ before behind, entries = before ++ (p.name, value) :: behind ∧ op.Accepts before ∧
    p ∈ op.parameters ∧ ¬ p.Takes value

instance (op : Signature) (entries : Dict Json) : Decidable (op.Accepts entries) :=
  inferInstanceAs (Decidable (∀ entry ∈ entries, ∀ p ∈ op.parameters,
    p.name = entry.1 → p.Takes entry.2))

/-- `Accepts` goes over entries and parameters at once. Binding takes one entry after the other, and
this is how the two are brought together. -/
theorem accepts_cons_iff {entry : String × Json} {entries : List (String × Json)} :
    op.Accepts (entry :: entries) ↔ ¬ op.Refuses entry ∧ op.Accepts entries := by
  unfold Accepts Refuses
  rw [List.forall_mem_cons]
  push Not
  rfl

theorem accepts_iff {entries : List (String × Json)} :
    op.Accepts entries ↔ ∀ entry ∈ entries, ¬ op.Refuses entry := by
  induction entries with
  | nil => exact iff_of_true (Accepts.nil op) (by simp)
  | cons entry entries ih => rw [accepts_cons_iff, List.forall_mem_cons, ih]

/-- Where not all is accepted, there is a first entry that is refused. The two cases exclude each
other, and the lemmas below say what binding does in each of them. -/
theorem accepts_or_firstRefused (op : Signature) (entries : List (String × Json)) :
    op.Accepts entries ∨ ∃ p value, op.FirstRefused entries p value := by
  induction entries with
  | nil => exact .inl (Accepts.nil op)
  | cons entry entries ih =>
    by_cases hentry : op.Refuses entry
    · obtain ⟨p, hp, hname, htakes⟩ := hentry
      refine .inr ⟨p, entry.2, [], entries, ?_, Accepts.nil op, hp, htakes⟩
      rw [hname]
      rfl
    · rcases ih with haccepts | ⟨p, value, before, behind, rfl, hbefore, hp, htakes⟩
      · exact .inl (accepts_cons_iff.mpr ⟨hentry, haccepts⟩)
      · exact .inr ⟨p, value, entry :: before, behind, rfl,
          accepts_cons_iff.mpr ⟨hentry, hbefore⟩, hp, htakes⟩

theorem FirstRefused.refuses {entries : List (String × Json)} {p : Parameter} {value : Json}
    (h : op.FirstRefused entries p value) : ∃ entry ∈ entries, op.Refuses entry := by
  obtain ⟨before, behind, rfl, -, hp, htakes⟩ := h
  exact ⟨(p.name, value), by simp, p, hp, rfl, htakes⟩

/-- A value that is not taken is named in the error together with what would be. -/
theorem checkType_of_not_takes {p : Parameter} {value : Json} (h : ¬ p.Takes value) :
    op.checkType p value = .error (op.refusal p value) := by
  unfold checkType
  rw [if_neg]
  · rfl
  · simpa [Parameter.Takes] using h

/-- Where no two parameters have one name, looking one up by name finds it. -/
theorem parameter?_eq_some_iff (hop : op.WellFormed) {name : String} {p : Parameter} :
    op.parameter? name = some p ↔ p ∈ op.parameters ∧ p.name = name := by
  constructor
  · intro h
    exact ⟨List.mem_of_find?_eq_some h, by simpa using List.find?_some h⟩
  · rintro ⟨hp, rfl⟩
    exact parameter?_eq_some hop hp

/-- An entry with the name of a parameter is checked and then set. Any other entry is set without a
check. -/
theorem bindMembers_cons (hop : op.WellFormed) {p : Parameter} (hp : p ∈ op.parameters)
    (value : Json) (entries : List (String × Json)) (data : Dict Json) :
    op.bindMembers ((p.name, value) :: entries) data =
      op.checkType p value >>= fun _ => op.bindMembers entries (Dict.set data p.name value) := by
  rw [bindMembers, parameter?_eq_some hop hp]

/-- One step: an entry that is not refused is set. This includes entries whose name is that of no
parameter, which are set without a check. -/
theorem bindMembers_cons_of_not_refuses (hop : op.WellFormed) {entry : String × Json}
    (h : ¬ op.Refuses entry) (entries : List (String × Json)) (data : Dict Json) :
    op.bindMembers (entry :: entries) data =
      op.bindMembers entries (Dict.set data entry.1 entry.2) := by
  obtain ⟨name, value⟩ := entry
  -- A name that no parameter has is set without a check.
  cases hfound : op.parameter? name with
  | none =>
    rw [bindMembers, hfound]
    rfl
  | some p =>
    obtain ⟨hp, rfl⟩ := (parameter?_eq_some_iff hop).mp hfound
    have htakes : p.Takes value := by
      by_contra htakes
      exact h ⟨p, hp, rfl, htakes⟩
    rw [bindMembers_cons hop hp, checkType_ok_iff.mpr htakes]
    rfl

/-- If all is accepted, all is set, and later entries of a name replace earlier ones. -/
theorem bindMembers_of_accepts (hop : op.WellFormed) {entries : List (String × Json)}
    (h : op.Accepts entries) (data : Dict Json) :
    op.bindMembers entries data =
      .ok (entries.foldl (fun data entry => Dict.set data entry.1 entry.2) data) := by
  induction entries generalizing data with
  | nil => rfl
  | cons entry entries ih =>
    obtain ⟨hentry, hentries⟩ := accepts_cons_iff.mp h
    rw [bindMembers_cons_of_not_refuses hop hentry, ih hentries, List.foldl_cons]

/-- Entries behind the first that is refused are not looked at. -/
theorem bindMembers_of_firstRefused (hop : op.WellFormed) {entries : List (String × Json)}
    {p : Parameter} {value : Json} (h : op.FirstRefused entries p value) (data : Dict Json) :
    op.bindMembers entries data = .error (op.refusal p value) := by
  obtain ⟨before, behind, rfl, hbefore, hp, htakes⟩ := h
  induction before generalizing data with
  | nil =>
    rw [List.nil_append, bindMembers_cons hop hp, checkType_of_not_takes htakes]
    rfl
  | cons entry before ih =>
    obtain ⟨hentry, hbefore⟩ := accepts_cons_iff.mp hbefore
    rw [List.cons_append, bindMembers_cons_of_not_refuses hop hentry]
    exact ih _ hbefore

/-- **Binding fails exactly at the first entry that is refused.** One direction is the lemma above,
and the other one follows since there are only the two cases. -/
theorem bindMembers_error_iff (hop : op.WellFormed) {entries : List (String × Json)}
    {data : Dict Json} {err : ArgumentError} :
    op.bindMembers entries data = .error err ↔
      ∃ p value, op.FirstRefused entries p value ∧ err = op.refusal p value := by
  constructor
  · intro h
    rcases accepts_or_firstRefused op entries with haccepts | ⟨p, value, hfirst⟩
    · rw [bindMembers_of_accepts hop haccepts] at h
      cases h
    · rw [bindMembers_of_firstRefused hop hfirst] at h
      cases h
      exact ⟨p, value, hfirst, rfl⟩
  · rintro ⟨p, value, hfirst, rfl⟩
    exact bindMembers_of_firstRefused hop hfirst data

/-- Two lists are bound one after the other. This puts the members of a wrapper behind the values by
position. -/
theorem bindMembers_append (op : Signature) (first second : List (String × Json))
    (data : Dict Json) :
    op.bindMembers (first ++ second) data =
      op.bindMembers first data >>= op.bindMembers second := by
  induction first generalizing data with
  | nil => rfl
  | cons entry first ih =>
    obtain ⟨name, value⟩ := entry
    rw [List.cons_append, bindMembers, bindMembers]
    cases op.parameter? name with
    | none => exact ih _
    | some p =>
      dsimp only
      rw [bind_assoc]
      simp only [ih]

/-! ## By position -/

/-- Values under the names of the parameters at their positions. -/
def named (op : Signature) (values : List Json) : Dict Json :=
  ((op.parameters.take values.length).map (·.name)).zip values

theorem keys_named (op : Signature) (values : List Json) :
    Dict.keys (op.named values) = (op.parameters.take values.length).map (·.name) := by
  refine List.map_fst_zip ?_
  rw [List.length_map]
  exact List.length_take_le ..

theorem values_named (op : Signature) {values : List Json}
    (h : values.length ≤ op.parameters.length) : Dict.values (op.named values) = values :=
  List.map_snd_zip (by simp [h])

/-- **Binding by position is binding by name**, with the names of the parameters. The parameters
that are left are generalised, as the recursion takes them off the front. -/
theorem bindPositional_eq (hop : op.WellFormed) :
    ∀ {parameters : List Parameter}, parameters ⊆ op.parameters →
      ∀ (values : List Json) (data : Dict Json),
        op.bindPositional parameters values data =
          op.bindMembers (((parameters.take values.length).map (·.name)).zip values) data := by
  intro parameters
  induction parameters with
  | nil =>
    intro _ values data
    rw [List.take_nil]
    rfl
  | cons p parameters ih =>
    intro hsub values data
    cases values with
    | nil => rfl
    | cons value values =>
      have hrest : parameters ⊆ op.parameters := List.subset_of_cons_subset hsub
      rw [List.length_cons, List.take_succ_cons, List.map_cons, List.zip_cons_cons,
        bindMembers_cons hop (hsub List.mem_cons_self), bindPositional]
      simp only [ih hrest]

/-! ## The wrapper -/

/-- The last argument is a wrapper: an object with a member for every required parameter that the
positional arguments before it leave open, and there is such a parameter. -/
structure Wrapped (op : Signature) (arguments positional : List Json) (members : Dict Json) : Prop
    where
  split : arguments = positional ++ [.object members]
  leaves_open : ∃ p ∈ op.parameters.drop positional.length, p.isRequired = true
  fills : ∀ p ∈ op.parameters.drop positional.length, p.isRequired = true →
    p.name ∈ Dict.keys members

/-- The call ends in a wrapper. -/
def Flattens (op : Signature) (arguments : List Json) : Prop :=
  ∃ positional members, op.Wrapped arguments positional members

/-- The check for a wrapper in terms of what it asks for. It also asks that the position is not past
the end, which the open parameter implies. -/
theorem wrapper?_eq_some_iff {index : Nat} {candidate : Json} {members : Dict Json} :
    op.wrapper? index candidate = some members ↔
      candidate = .object members ∧
      (∃ p ∈ op.parameters.drop index, p.isRequired = true) ∧
      ∀ p ∈ op.parameters.drop index, p.isRequired = true → p.name ∈ Dict.keys members := by
  cases candidate with
  | object entries =>
    have hopen : (!((op.parameters.drop index).filter (·.isRequired)).isEmpty) = true ↔
        ∃ p ∈ op.parameters.drop index, p.isRequired = true := by
      simp
    have hfills : (((op.parameters.drop index).filter (·.isRequired)).all
          fun p => Dict.has entries p.name) = true ↔
        ∀ p ∈ op.parameters.drop index, p.isRequired = true → p.name ∈ Dict.keys entries := by
      simp only [List.all_eq_true, List.mem_filter, and_imp, Dict.has, Dict.isSome_get?_iff]
    -- An open parameter stands at the position or behind it, so the position is not past the end.
    have hindex : (∃ p ∈ op.parameters.drop index, p.isRequired = true) →
        index ≤ op.parameters.length := by
      rintro ⟨p, hp, -⟩
      have hlength := List.length_pos_of_mem hp
      rw [List.length_drop] at hlength
      omega
    unfold wrapper?
    simp only [Bool.and_eq_true, decide_eq_true_eq, hopen, hfills]
    split
    · rename_i hcond
      obtain ⟨⟨-, hsome⟩, hall⟩ := hcond
      constructor
      · rintro ⟨⟩
        exact ⟨rfl, hsome, hall⟩
      · rintro ⟨⟨⟩, -, -⟩
        rfl
    · rename_i hcond
      constructor
      · rintro ⟨⟩
      · rintro ⟨⟨⟩, hsome, hall⟩
        exact absurd ⟨⟨hindex hsome, hsome⟩, hall⟩ hcond
  | _ => exact iff_of_false nofun (by rintro ⟨⟨⟩, -⟩)

/-- Only the last argument can be a wrapper. -/
theorem splitWrapper?_eq_some_iff {arguments positional : List Json} {members : Dict Json} :
    op.splitWrapper? arguments = some (positional, members) ↔
      op.Wrapped arguments positional members := by
  rcases List.eq_nil_or_concat arguments with rfl | ⟨first, last, rfl⟩
  · constructor
    · rintro ⟨⟩
    · intro h
      exact absurd h.split (by simp)
  · unfold splitWrapper?
    rw [List.concat_eq_append, List.getLast?_concat]
    show Option.map _ (op.wrapper? _ last) = _ ↔ _
    rw [List.dropLast_concat, Option.map_eq_some_iff]
    constructor
    · rintro ⟨entries, hentries, ⟨⟩⟩
      obtain ⟨rfl, hopen, hfills⟩ := wrapper?_eq_some_iff.mp hentries
      exact ⟨rfl, hopen, hfills⟩
    · rintro ⟨hsplit, hopen, hfills⟩
      obtain ⟨rfl, hlast⟩ := List.append_inj' hsplit rfl
      cases hlast
      exact ⟨members, wrapper?_eq_some_iff.mpr ⟨rfl, hopen, hfills⟩, rfl⟩

theorem splitWrapper?_eq_none_iff {arguments : List Json} :
    op.splitWrapper? arguments = none ↔ ¬ op.Flattens arguments := by
  rw [Option.eq_none_iff_forall_not_mem]
  constructor
  · rintro hnone ⟨positional, members, h⟩
    exact hnone _ (splitWrapper?_eq_some_iff.mpr h)
  · rintro h ⟨positional, members⟩ hsome
    exact h ⟨positional, members, splitWrapper?_eq_some_iff.mp hsome⟩

instance (op : Signature) (arguments : List Json) : Decidable (op.Flattens arguments) :=
  decidable_of_iff (¬ op.splitWrapper? arguments = none)
    (not_iff_comm.mp splitWrapper?_eq_none_iff.symm)

/-! ## All that a call binds -/

/-- What a call binds, in order: values by position, and behind them the members of the wrapper. -/
def bound (op : Signature) (arguments : List Json) : List (String × Json) :=
  match op.splitWrapper? arguments with
  | some (positional, members) => op.named positional ++ members
  | none => op.named arguments

theorem bound_of_wrapped {arguments positional : List Json} {members : Dict Json}
    (h : op.Wrapped arguments positional members) :
    op.bound arguments = op.named positional ++ members := by
  unfold bound
  rw [splitWrapper?_eq_some_iff.mpr h]

theorem bound_of_not_flattens {arguments : List Json} (h : ¬ op.Flattens arguments) :
    op.bound arguments = op.named arguments := by
  unfold bound
  rw [splitWrapper?_eq_none_iff.mpr h]

/-- There is no wrapper, and the number of arguments lies outside of what the signature asks for. -/
def Miscounted (op : Signature) (arguments : List Json) : Prop :=
  ¬ op.Flattens arguments ∧
    ¬ (op.requiredCount ≤ arguments.length ∧
      arguments.length ≤ op.requiredCount + op.optionalCount)

instance (op : Signature) (arguments : List Json) : Decidable (op.Miscounted arguments) :=
  inferInstanceAs (Decidable (¬ _ ∧ ¬ (_ ∧ _)))

theorem acceptsArity_iff {count : Nat} : op.acceptsArity count = true ↔
    op.requiredCount ≤ count ∧ count ≤ op.requiredCount + op.optionalCount := by
  rw [acceptsArity, Bool.and_eq_true, decide_eq_true_eq, decide_eq_true_eq]
  rfl

theorem bind_of_miscounted {arguments : List Json} (h : op.Miscounted arguments) :
    op.bind arguments = .error (.count op.name op.requiredCount
      (op.requiredCount + op.optionalCount) arguments.length) := by
  unfold bind
  rw [splitWrapper?_eq_none_iff.mpr h.1]
  show (if _ then _ else _) = _
  rw [if_neg (mt acceptsArity_iff.mp h.2)]
  rfl

/-- **Binding goes through what a call binds**, if the number of arguments is in order. -/
theorem bind_eq (hop : op.WellFormed) {arguments : List Json} (h : ¬ op.Miscounted arguments) :
    op.bind arguments = op.bindMembers (op.bound arguments) [] := by
  have hpositional := bindPositional_eq hop (List.Subset.refl op.parameters)
  unfold bind bound
  cases hsplit : op.splitWrapper? arguments with
  | some parts =>
    obtain ⟨positional, members⟩ := parts
    show (op.bindPositional op.parameters positional [] >>= _) = _
    rw [hpositional, bindMembers_append]
    rfl
  | none =>
    have hcount := not_not.mp fun hcount => h ⟨splitWrapper?_eq_none_iff.mp hsplit, hcount⟩
    show (if _ then _ else _) = _
    rw [if_pos (acceptsArity_iff.mpr hcount), hpositional]
    rfl

theorem length_le_of_not_miscounted {arguments : List Json} (hflat : ¬ op.Flattens arguments)
    (h : ¬ op.Miscounted arguments) : arguments.length ≤ op.parameters.length := by
  obtain ⟨-, hmost⟩ := not_not.mp fun hcount => h ⟨hflat, hcount⟩
  have hrequired : op.requiredCount ≤ op.parameters.length := List.length_filter_le _ _
  unfold optionalCount at hmost
  omega

/-- Here nothing is assumed of the signature, so this is not a case of `bindPositional_eq`: whatever
a signature looks like, what is bound is set in order. -/
theorem bindPositional_ok_eq :
    ∀ {parameters : List Parameter} {values : List Json} {data result : Dict Json},
      op.bindPositional parameters values data = .ok result →
      result = (((parameters.take values.length).map (·.name)).zip values).foldl
        (fun data entry => Dict.set data entry.1 entry.2) data
  | [], values, data, result, h => by
    cases h
    rw [List.take_nil]
    rfl
  | p :: parameters, [], data, result, h => by
    cases h
    rfl
  | p :: parameters, value :: values, data, result, h => by
    rw [bindPositional] at h
    obtain ⟨_, _, hrest⟩ := Except.bind_ok h
    rw [bindPositional_ok_eq hrest, List.length_cons, List.take_succ_cons, List.map_cons,
      List.zip_cons_cons, List.foldl_cons]

theorem bindMembers_ok_eq :
    ∀ {members : List (String × Json)} {data result : Dict Json},
      op.bindMembers members data = .ok result →
      result = members.foldl (fun data entry => Dict.set data entry.1 entry.2) data
  | [], data, result, h => by
    cases h
    rfl
  | (name, value) :: members, data, result, h => by
    rw [bindMembers_ok_eq (bindMembers_cons_ok h).2, List.foldl_cons]

/-- **Bound data is all that a call binds, set in order.** If a name is bound by position and again
by a wrapper, the wrapper has the last word. -/
theorem bind_ok_eq {arguments : List Json} {data : Dict Json} (h : op.bind arguments = .ok data) :
    data = Dict.ofList (op.bound arguments) := by
  unfold bind at h
  unfold bound
  cases hsplit : op.splitWrapper? arguments with
  | some parts =>
    obtain ⟨positional, members⟩ := parts
    rw [hsplit] at h
    obtain ⟨first, hfirst, hmembers⟩ := Except.bind_ok h
    rw [bindMembers_ok_eq hmembers, bindPositional_ok_eq hfirst, ← List.foldl_append]
    rfl
  | none =>
    rw [hsplit] at h
    by_cases hcount : op.acceptsArity arguments.length = true
    · rw [bindPositional_ok_eq ((if_pos hcount).symm.trans h)]
      rfl
    · cases (if_neg hcount).symm.trans h

theorem nodup_keys_named (hdistinct : (op.parameters.map (·.name)).Nodup) (values : List Json) :
    (Dict.keys (op.named values)).Nodup := by
  rw [keys_named, List.map_take]
  exact hdistinct.sublist (List.take_sublist _ _)

/-- Without a wrapper, each argument is found under the name of the parameter at its position. -/
theorem bind_of_not_flattens (hop : op.WellFormed) {arguments : List Json} {data : Dict Json}
    (hflat : ¬ op.Flattens arguments) (h : op.bind arguments = .ok data) :
    Dict.keys data = (op.parameters.take arguments.length).map (·.name) ∧
      Dict.values data = arguments := by
  have hcount : ¬ op.Miscounted arguments := by
    intro hcount
    rw [bind_of_miscounted hcount] at h
    cases h
  have hdata : data = op.named arguments := by
    rw [bind_ok_eq h, bound_of_not_flattens hflat,
      Dict.ofList_of_nodup (nodup_keys_named hop.distinct arguments)]
  rw [hdata]
  exact ⟨op.keys_named arguments, op.values_named (length_le_of_not_miscounted hflat hcount)⟩

/-- The number of arguments is checked before their types. -/
theorem bind_error_iff (hop : op.WellFormed) {arguments : List Json} {err : ArgumentError} :
    op.bind arguments = .error err ↔
      (op.Miscounted arguments ∧ err = .count op.name op.requiredCount
        (op.requiredCount + op.optionalCount) arguments.length) ∨
      (¬ op.Miscounted arguments ∧ ∃ p value,
        op.FirstRefused (op.bound arguments) p value ∧ err = op.refusal p value) := by
  by_cases hcount : op.Miscounted arguments
  · rw [bind_of_miscounted hcount]
    simp [hcount, eq_comm]
  · rw [bind_eq hop hcount, bindMembers_error_iff hop]
    simp [hcount]

/-- **What binding gives, and when and how it fails.** Bound data has every required parameter, and
whatever stands under the name of a parameter is taken by it. Without a wrapper it is the arguments
under the names of the first parameters, in order. Binding fails if the number of arguments is
wrong, which is asked only where there is no wrapper, or else if some entry is refused, and then the
error is about the first of them. -/
theorem bind_decided (hop : op.WellFormed) (arguments : List Json) :
    (∀ data, op.bind arguments = .ok data →
      op.Supplies data ∧ op.Accepts data ∧
      (¬ op.Flattens arguments →
        Dict.keys data = (op.parameters.take arguments.length).map (·.name) ∧
        Dict.values data = arguments)) ∧
    ((∃ err, op.bind arguments = .error err) ↔
      op.Miscounted arguments ∨ ∃ entry ∈ op.bound arguments, op.Refuses entry) ∧
    ∀ err, op.bind arguments = .error err ↔
      (op.Miscounted arguments ∧ err = .count op.name op.requiredCount
        (op.requiredCount + op.optionalCount) arguments.length) ∨
      (¬ op.Miscounted arguments ∧ ∃ p value,
        op.FirstRefused (op.bound arguments) p value ∧ err = op.refusal p value) := by
  refine ⟨?_, ?_, fun err => bind_error_iff hop⟩
  · intro data h
    obtain ⟨hsupplies, haccepts⟩ := bind_fits hop h
    exact ⟨hsupplies, haccepts, fun hflat => bind_of_not_flattens hop hflat h⟩
  · constructor
    · rintro ⟨err, herr⟩
      rcases (bind_error_iff hop).mp herr with ⟨hcount, -⟩ | ⟨-, p, value, hfirst, -⟩
      · exact .inl hcount
      · exact .inr hfirst.refuses
    · intro h
      by_cases hcount : op.Miscounted arguments
      · exact ⟨_, bind_of_miscounted hcount⟩
      · obtain ⟨entry, hentry, hrefuses⟩ := h.resolve_left hcount
        -- Some entry is refused, so there is a first one.
        have hnot : ¬ op.Accepts (op.bound arguments) := fun haccepts =>
          accepts_iff.mp haccepts entry hentry hrefuses
        obtain ⟨p, value, hfirst⟩ := (accepts_or_firstRefused op _).resolve_left hnot
        exact ⟨_, (bind_error_iff hop).mpr (.inr ⟨hcount, p, value, hfirst, rfl⟩)⟩

/-- An operation with a parameter that may be left out. -/
def fade : Signature where
  name := "fade"
  description := "Fade the selected element"
  category := .animation
  parameters := [.needed "opacity" (.types [.number]) "Opacity at the end",
    .needed "length" (.types [.number]) "Length in milliseconds",
    .extra "easing" (.types [.string]) none "Easing function"]
  dependencies := ["selectedElement"]
  outputs := []

theorem wellFormed_fade : fade.WellFormed := ⟨by decide, by decide⟩

/-- A call by position, one whose wrapper has two members that are refused, and one with too few
arguments. -/
theorem bind_decided_fade :
    (∃ data, fade.bind [.int 1, .string "$scope.length"] = .ok data ∧
      Dict.keys data = ["opacity", "length"]) ∧
    fade.bind [.int 1, .object [("length", .string "short"), ("easing", .int 2)]] =
      .error (.type "fade" "length" ["number"] "string") ∧
    fade.bind [.string "full"] = .error (.count "fade" 2 3 1) := by
  have hdecided := bind_decided wellFormed_fade
  refine ⟨?_, ?_, ?_⟩
  · have h : fade.bind [.int 1, .string "$scope.length"] =
        .ok [("opacity", .int 1), ("length", .string "$scope.length")] := rfl
    exact ⟨_, h, (((hdecided _).1 _ h).2.2 (by decide)).1⟩
  · refine ((hdecided _).2.2 _).mpr (.inr ⟨by decide, .needed "length" (.types [.number])
      "Length in milliseconds", .string "short", ?_, rfl⟩)
    exact ⟨[("opacity", .int 1)], [("easing", .int 2)], rfl, by decide, by decide, by decide⟩
  · exact ((hdecided _).2.2 _).mpr (.inl ⟨by decide, rfl⟩)

/-- **One object is as good as a list of arguments.** Arguments by position and the object that has
them under the names of the parameters give the same data, in the same order, or the same error. -/
theorem bind_object_eq (hop : op.WellFormed) (hrequired : ∃ p ∈ op.parameters, p.isRequired = true)
    {arguments : List Json} (hleast : op.requiredCount ≤ arguments.length)
    (hmost : arguments.length ≤ op.requiredCount + op.optionalCount)
    (hflat : ¬ op.Flattens arguments) :
    op.bind [.object (op.named arguments)] = op.bind arguments := by
  have hwrapped : op.Wrapped [.object (op.named arguments)] [] (op.named arguments) := by
    refine ⟨rfl, hrequired, ?_⟩
    intro p hp hneeded
    rw [keys_named]
    exact List.mem_map_of_mem (hop.mem_take hleast hp hneeded)
  have hcount : ¬ op.Miscounted arguments := fun h => h.2 ⟨hleast, hmost⟩
  have hobject : ¬ op.Miscounted [.object (op.named arguments)] := fun h => h.1 ⟨_, _, hwrapped⟩
  have hnone : op.named [] = [] := List.zip_nil_right
  rw [bind_eq hop hobject, bind_eq hop hcount, bound_of_wrapped hwrapped,
    bound_of_not_flattens hflat, hnone, List.nil_append]

/-- The error is the same as well: both calls fail at the second parameter and do not come to the
third. -/
theorem bind_object_eq_fade :
    ¬ fade.Flattens [.int 1, .string "short", .int 2] ∧
      fade.bind [.object [("opacity", .int 1), ("length", .string "short"), ("easing", .int 2)]] =
        fade.bind [.int 1, .string "short", .int 2] := by
  have hflat : ¬ fade.Flattens [.int 1, .string "short", .int 2] := by decide
  exact ⟨hflat, bind_object_eq wellFormed_fade (by decide) (by decide) (by decide) hflat⟩

end Signature

end Cuesheet
