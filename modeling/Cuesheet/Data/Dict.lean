/-!
# Dictionaries in order of first insertion

A `Dict` is a list of named entries. Looking up takes the first entry of a name; setting a name
that is already there keeps its place and changes its value; setting a new name puts it at the end.
JSON objects, constants, source maps and document sets are all kept this way, because the order in
which names were first set shows in what is written.
-/

set_option autoImplicit false

namespace Cuesheet

/-- Named entries, in the order in which the names were first set. -/
abbrev Dict (α : Type) := List (String × α)

namespace Dict

variable {α : Type}

/-- The value of the first entry called `name`. -/
def get? : Dict α → String → Option α
  | [], _ => none
  | (key, value) :: rest, name => if key = name then some value else get? rest name

/-- Whether some entry is called `name`. -/
def has (dict : Dict α) (name : String) : Bool := (get? dict name).isSome

/-- Gives `name` the value `value`: in place if the name is there, at the end if it is not. -/
def set : Dict α → String → α → Dict α
  | [], name, value => [(name, value)]
  | (key, old) :: rest, name, value =>
    if key = name then (key, value) :: rest else (key, old) :: set rest name value

/-- Removes the first entry called `name` and keeps the order of the others. -/
def erase : Dict α → String → Dict α
  | [], _ => []
  | (key, value) :: rest, name => if key = name then rest else (key, value) :: erase rest name

def keys (dict : Dict α) : List String := dict.map (·.1)

def values (dict : Dict α) : List α := dict.map (·.2)

/-- Sets the given entries one after another, starting from nothing. -/
def ofList (entries : List (String × α)) : Dict α :=
  entries.foldl (fun dict entry => set dict entry.1 entry.2) []

@[simp] theorem get?_nil (name : String) : get? ([] : Dict α) name = none := rfl

theorem get?_set (dict : Dict α) (name : String) (value : α) :
    get? (set dict name value) name = some value := by
  induction dict with
  | nil => simp [set, get?]
  | cons entry rest ih =>
    obtain ⟨key, old⟩ := entry
    by_cases h : key = name <;> simp [set, get?, h, ih]

theorem get?_set_of_ne (dict : Dict α) {name other : String} (value : α) (h : other ≠ name) :
    get? (set dict name value) other = get? dict other := by
  induction dict with
  | nil => simp [set, get?, h.symm]
  | cons entry rest ih =>
    obtain ⟨key, old⟩ := entry
    by_cases hk : key = name
    · subst hk
      simp [set, get?, h.symm]
    · by_cases ho : key = other
      · subst ho
        simp [set, get?, h]
      · simp [set, get?, hk, ho, ih]

end Dict

end Cuesheet
