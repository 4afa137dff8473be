import Cuesheet.Data.Dict
import Mathlib.Data.List.Nodup

/-!
# Dictionaries as finite maps

Looking up, setting and listing the names of a `Dict`, related to one another. A dictionary is a
plain list, so a name may stand in it twice; every statement that needs each name to stand there
once says so.
-/

set_option autoImplicit false

namespace Cuesheet.Dict

variable {α : Type}

theorem get?_eq_none_iff {dict : Dict α} {name : String} :
    get? dict name = none ↔ name ∉ keys dict := by
  induction dict with
  | nil => simp [keys]
  | cons entry rest ih =>
    obtain ⟨key, value⟩ := entry
    by_cases h : key = name
    · simp [get?, keys, h]
    · have h' : name ≠ key := fun e => h e.symm
      simpa [get?, keys, h, h'] using ih

theorem isSome_get?_iff {dict : Dict α} {name : String} :
    (get? dict name).isSome ↔ name ∈ keys dict := by
  rw [← not_iff_not, ← get?_eq_none_iff]
  simp

theorem exists_of_mem_keys {dict : Dict α} {name : String} (h : name ∈ keys dict) :
    ∃ value, get? dict name = some value :=
  Option.isSome_iff_exists.mp (isSome_get?_iff.mpr h)

theorem mem_keys_of_get? {dict : Dict α} {name : String} {value : α}
    (h : get? dict name = some value) : name ∈ keys dict := by
  rw [← isSome_get?_iff, h]
  rfl

/-- What is found is an entry. The converse needs that no name stands twice. -/
theorem mem_of_get? {dict : Dict α} {name : String} {value : α}
    (h : get? dict name = some value) : (name, value) ∈ dict := by
  induction dict with
  | nil => simp at h
  | cons entry rest ih =>
    obtain ⟨key, first⟩ := entry
    by_cases hk : key = name
    · simp only [get?, hk, if_true, Option.some.injEq] at h
      simp [hk, h]
    · simp only [get?, hk, if_false] at h
      exact List.mem_cons_of_mem _ (ih h)

/-- Where no name stands twice, every entry is found. Otherwise the first entry of a name would hide
the later ones. -/
theorem get?_of_mem {dict : Dict α} {name : String} {value : α} (hnodup : (keys dict).Nodup)
    (h : (name, value) ∈ dict) : get? dict name = some value := by
  induction dict with
  | nil => simp at h
  | cons entry rest ih =>
    obtain ⟨key, first⟩ := entry
    simp only [keys, List.map_cons, List.nodup_cons] at hnodup
    rcases List.mem_cons.mp h with heq | hrest
    · simp only [Prod.mk.injEq] at heq
      simp [get?, heq.1, heq.2]
    · have hne : key ≠ name := fun e => hnodup.1 (e ▸ List.mem_map_of_mem hrest)
      simp [get?, hne, ih hnodup.2 hrest]

/-- The first of two dictionaries hides the second. -/
theorem get?_append (first second : Dict α) (name : String) :
    get? (first ++ second) name = (get? first name).or (get? second name) := by
  induction first with
  | nil => rfl
  | cons entry first ih =>
    obtain ⟨key, value⟩ := entry
    by_cases h : key = name
    · simp [get?, h]
    · simpa [get?, h] using ih

theorem get?_filter_ne (dict : Dict α) (name other : String) :
    get? (dict.filter (·.1 ≠ name)) other = if other = name then none else get? dict other := by
  induction dict with
  | nil => simp
  | cons entry rest ih =>
    by_cases hname : entry.1 = name <;> by_cases hother : entry.1 = other <;> grind [get?]

theorem get?_set_cases {dict : Dict α} {name other : String} {value found : α}
    (h : get? (set dict name value) other = some found) :
    (other = name ∧ found = value) ∨ get? dict other = some found := by
  by_cases hne : other = name
  · subst hne
    rw [get?_set] at h
    exact .inl ⟨rfl, (Option.some.inj h).symm⟩
  · rw [get?_set_of_ne _ _ hne] at h
    exact .inr h

theorem mem_set {dict : Dict α} {name : String} {value : α} {entry : String × α}
    (h : entry ∈ set dict name value) : entry = (name, value) ∨ entry ∈ dict := by
  induction dict with
  | nil => simpa [set] using h
  | cons first rest ih =>
    obtain ⟨key, old⟩ := first
    rw [set] at h
    split at h
    · rename_i hkey
      rcases List.mem_cons.mp h with rfl | h
      · exact .inl (by rw [hkey])
      · exact .inr (List.mem_cons_of_mem _ h)
    · rcases List.mem_cons.mp h with rfl | h
      · exact .inr List.mem_cons_self
      · exact (ih h).imp_right (List.mem_cons_of_mem _)

theorem mem_keys_set_iff {dict : Dict α} {name other : String} {value : α} :
    other ∈ keys (set dict name value) ↔ other = name ∨ other ∈ keys dict := by
  rw [← isSome_get?_iff, ← isSome_get?_iff]
  by_cases h : other = name
  · subst h
    simp [get?_set]
  · simp [get?_set_of_ne _ _ h, h]

/-- Setting a new name puts it at the end. A name that is already there keeps its position. -/
theorem set_of_not_mem_keys {dict : Dict α} {name : String} (value : α)
    (h : name ∉ keys dict) : set dict name value = dict ++ [(name, value)] := by
  induction dict with
  | nil => rfl
  | cons entry rest ih =>
    obtain ⟨key, first⟩ := entry
    simp only [keys, List.map_cons, List.mem_cons, not_or] at h
    have hne : key ≠ name := fun e => h.1 e.symm
    simp [set, hne, ih h.2]

/-- Setting never makes a name stand twice, so a dictionary that is built by setting alone is a
finite map. -/
theorem nodup_keys_set {dict : Dict α} (h : (keys dict).Nodup) (name : String) (value : α) :
    (keys (set dict name value)).Nodup := by
  induction dict with
  | nil => simp [set, keys]
  | cons entry rest ih =>
    obtain ⟨key, first⟩ := entry
    simp only [keys, List.map_cons, List.nodup_cons] at h ih
    by_cases hk : key = name
    · subst hk
      simp only [set, if_true, keys, List.map_cons, List.nodup_cons]
      exact h
    · simp only [set, hk, if_false, keys, List.map_cons, List.nodup_cons]
      refine ⟨fun hmem => ?_, ih h.2⟩
      rcases mem_keys_set_iff.mp hmem with heq | hold
      · exact hk heq
      · exact h.1 hold

end Cuesheet.Dict
