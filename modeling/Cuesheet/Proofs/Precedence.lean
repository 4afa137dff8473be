import Cuesheet.Proofs.Binding

/-!
# Parameters that are given twice

A call with a wrapper can give one parameter twice: by its position, and by a member of the wrapper.
The data of a call is all that it binds, set in order (`Signature.bind_ok_eq`), and the members come
behind the positional arguments. So a member takes the place of the argument at the position of its
name (`Signature.get?_ofList_named`), and an argument is kept only where no member has that name or
the member has the same value.

Of the signature only distinct names are asked for here. Optional parameters may stand anywhere.
-/

set_option autoImplicit false

namespace Cuesheet

/-! ## The last entry of a name -/

namespace Dict

variable {α : Type}

/-- The value of the last entry called `name`. -/
def last? (entries : List (String × α)) (name : String) : Option α := get? entries.reverse name

theorem last?_append (first second : List (String × α)) (name : String) :
    last? (first ++ second) name = (last? second name).or (last? first name) := by
  rw [last?, List.reverse_append, get?_append]
  rfl

theorem last?_eq_none_iff {entries : List (String × α)} {name : String} :
    last? entries name = none ↔ name ∉ keys entries := by
  rw [last?, get?_eq_none_iff, keys, List.map_reverse, List.mem_reverse]
  rfl

theorem last?_of_mem {entries : List (String × α)} {name : String} {value : α}
    (hnodup : (keys entries).Nodup) (h : (name, value) ∈ entries) :
    last? entries name = some value := by
  refine get?_of_mem ?_ (List.mem_reverse.mpr h)
  rw [keys, List.map_reverse, List.nodup_reverse]
  exact hnodup

/-- Of the entries that are set one after another, the last one of a name stays. -/
theorem get?_ofList (entries : List (String × α)) (name : String) :
    get? (ofList entries) name = last? entries name := by
  induction entries using List.reverseRecOn with
  | nil => rfl
  | append_singleton entries entry ih =>
    have hstep : ofList (entries ++ [entry]) = set (ofList entries) entry.1 entry.2 := by
      rw [ofList, List.foldl_append]
      rfl
    rw [hstep, last?_append]
    by_cases h : name = entry.1
    · subst h
      simp [get?_set, last?, get?]
    · rw [get?_set_of_ne _ _ h, ih]
      simp [last?, get?, Ne.symm h]

end Dict

/-! ## At the position of an argument -/

namespace Signature

variable {op : Signature}

theorem mem_named {values : List Json} {index : Nat} {p : Parameter} {value : Json}
    (hp : op.parameters[index]? = some p) (hvalue : values[index]? = some value) :
    (p.name, value) ∈ op.named values := by
  have hindex : index < values.length := (List.getElem?_eq_some_iff.mp hvalue).1
  refine List.mem_of_getElem? (i := index) ?_
  rw [named, List.getElem?_zip_eq_some, List.getElem?_map, List.getElem?_take_of_lt hindex, hp]
  exact ⟨rfl, hvalue⟩

/-- An argument by position, with members behind: the member of that name stays, and the argument if
there is none. -/
theorem get?_ofList_named (hdistinct : (op.parameters.map (·.name)).Nodup) {positional : List Json}
    (hlength : positional.length ≤ op.parameters.length) (members : Dict Json) {index : Nat}
    {value : Json} (hvalue : positional[index]? = some value) :
    ∃ p : Parameter, op.parameters[index]? = some p ∧
      Dict.get? (Dict.ofList (op.named positional ++ members)) p.name =
        (Dict.last? members p.name).or (some value) := by
  have hindex : index < op.parameters.length :=
    Nat.lt_of_lt_of_le (List.getElem?_eq_some_iff.mp hvalue).1 hlength
  have hp : op.parameters[index]? = some op.parameters[index] := List.getElem?_eq_getElem hindex
  refine ⟨op.parameters[index], hp, ?_⟩
  rw [Dict.get?_ofList, Dict.last?_append,
    Dict.last?_of_mem (nodup_keys_named hdistinct positional) (mem_named hp hvalue)]

/-- Each of the values stands in the data under the name of the parameter at its position. -/
def Keeps (op : Signature) (data : Dict Json) (values : List Json) : Prop :=
  ∀ (index : Nat) (value : Json), values[index]? = some value →
    ∃ p : Parameter, op.parameters[index]? = some p ∧ Dict.get? data p.name = some value

/-- **What stands at the position of an argument.** Without a wrapper it is that argument. With one,
it is the member of the wrapper that names the parameter there, and the argument only if there is no
such member. So an argument is kept exactly if no member has the name of its parameter, or the last
one that has it has the same value. -/
theorem bind_by_position (hdistinct : (op.parameters.map (·.name)).Nodup) {arguments : List Json}
    {data : Dict Json} (h : op.bind arguments = .ok data) :
    (¬ op.Flattens arguments → op.Keeps data arguments) ∧
    ∀ positional members, op.Wrapped arguments positional members →
      ∀ (index : Nat) (value : Json), positional[index]? = some value →
        ∃ p : Parameter, op.parameters[index]? = some p ∧
          Dict.get? data p.name = (Dict.last? members p.name).or (some value) ∧
          (Dict.get? data p.name = some value ↔
            p.name ∉ Dict.keys members ∨ Dict.last? members p.name = some value) := by
  have hdata := bind_ok_eq h
  constructor
  · intro hflat index value hvalue
    have hcount : ¬ op.Miscounted arguments := by
      intro hcount
      rw [bind_of_miscounted hcount] at h
      cases h
    rw [bound_of_not_flattens hflat, ← List.append_nil (op.named arguments)] at hdata
    rw [hdata]
    exact get?_ofList_named hdistinct (length_le_of_not_miscounted hflat hcount) [] hvalue
  · intro positional members hwrapped index value hvalue
    -- A wrapper fills a parameter behind the positional arguments, so there is one for each of
    -- these.
    have hlength : positional.length ≤ op.parameters.length := by
      obtain ⟨p, hp, -⟩ := hwrapped.leaves_open
      have hopen := List.length_pos_of_mem hp
      rw [List.length_drop] at hopen
      omega
    rw [bound_of_wrapped hwrapped] at hdata
    obtain ⟨p, hp, hfound⟩ := get?_ofList_named hdistinct hlength members hvalue
    rw [← hdata] at hfound
    refine ⟨p, hp, hfound, ?_⟩
    -- The argument stays if there is no member of that name, or if the member has the same value.
    rw [hfound, ← Dict.last?_eq_none_iff]
    cases Dict.last? members p.name with
    | none => simp
    | some member => simp

/-- The opacity is given by position and, once more, by the wrapper. -/
theorem bind_by_position_fade :
    fade.bind [.int 1, .object [("length", .int 500), ("opacity", .int 0)]] =
        .ok [("opacity", .int 0), ("length", .int 500)] ∧
      ∃ p : Parameter, fade.parameters[0]? = some p ∧
        Dict.get? [("opacity", Json.int 0), ("length", .int 500)] p.name =
          (Dict.last? [("length", .int 500), ("opacity", .int 0)] p.name).or (some (.int 1)) := by
  have h : fade.bind [.int 1, .object [("length", .int 500), ("opacity", .int 0)]] =
      .ok [("opacity", .int 0), ("length", .int 500)] := rfl
  have hwrapped : fade.Wrapped [.int 1, .object [("length", .int 500), ("opacity", .int 0)]]
      [.int 1] [("length", .int 500), ("opacity", .int 0)] := ⟨rfl, by decide, by decide⟩
  obtain ⟨p, hp, hfound, -⟩ :=
    (bind_by_position wellFormed_fade.distinct h).2 _ _ hwrapped 0 (.int 1) rfl
  exact ⟨h, p, hp, hfound⟩

/-- An argument by position is not safe from the wrapper behind it. The wrapper may have members for
parameters that are filled already, and they are set later. -/
theorem position_replaced :
    ¬ ∀ op : Signature, (op.parameters.map (·.name)).Nodup →
      ∀ (arguments : List Json) (data : Dict Json), op.bind arguments = .ok data →
        ∀ positional members, op.Wrapped arguments positional members →
          op.Keeps data positional := by
  intro hkept
  have hwrapped : fade.Wrapped [.int 1, .object [("length", .int 500), ("opacity", .int 0)]]
      [.int 1] [("length", .int 500), ("opacity", .int 0)] := ⟨rfl, by decide, by decide⟩
  obtain ⟨p, hp, hfound⟩ := hkept fade wellFormed_fade.distinct _
    [("opacity", .int 0), ("length", .int 500)] rfl _ _ hwrapped 0 (.int 1) rfl
  cases hp
  cases hfound

end Signature

end Cuesheet
