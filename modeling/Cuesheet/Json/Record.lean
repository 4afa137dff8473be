import Cuesheet.Json.Basic

/-!
# Reading records, tagged nodes and keywords

A record is written as an object with named fields or as an array with the fields in order. Names
that are not asked for are ignored; a name that is asked for must not be repeated. In an array the
last fields may be missing and nothing may follow the last one.

A tagged node is a record whose kind is named by its member `$type`, or by the first item when it
is an array. Inside another node the kind may also be given by its position in the list of kinds.

A keyword is a string, or an object whose only member has that name and the value null.
-/

set_option autoImplicit false

namespace Cuesheet.Json

/-- The values of all entries called `name`. -/
def entriesNamed (entries : List (String × Json)) (name : String) : List Json :=
  entries.filterMap fun (key, value) => if key = name then some value else none

/-- The field called `name`: absent or given once. -/
def field? (entries : List (String × Json)) (name : String) : Option (Option Json) :=
  match entriesNamed entries name with
  | [] => some none
  | [value] => some (some value)
  | _ => none

/-- The fields of a record, in the order of `names`; an absent field is none. -/
def fields? (names : List String) : Json → Option (List (Option Json))
  | .object entries => names.mapM (field? entries)
  | .array items =>
    if items.length ≤ names.length then
      some (items.map some ++ List.replicate (names.length - items.length) none)
    else none
  | _ => none

/-! ## Fields -/

section

variable {α : Type}

/-- A field that has to be there. -/
def required (read : Json → Option α) : Option Json → Option α
  | some j => read j
  | none => none

/-- A field with a default. It may be absent, but what is there has to be readable. -/
def withDefault (read : Json → Option α) (default : α) : Option Json → Option α
  | some j => read j
  | none => some default

/-- A field that may be absent or null. -/
def optional (read : Json → Option α) : Option Json → Option (Option α)
  | none | some .null => some none
  | some j => (read j).map some

/-- An array of things. -/
def listOf? (read : Json → Option α) : Json → Option (List α)
  | .array items => items.mapM read
  | _ => none

end

/-- A truth value. -/
def bool? : Json → Option Bool
  | .bool b => some b
  | _ => none

/-- A whole number of 32 bits without sign. -/
def word? : Json → Option UInt32
  | .int n => if 0 ≤ n ∧ n.toNat < Nat.pow 2 32 then some (UInt32.ofNat n.toNat) else none
  | _ => none

/-- A whole number of 64 bits without sign. -/
def count? : Json → Option Nat
  | .int n => if 0 ≤ n ∧ n.toNat < Nat.pow 2 64 then some n.toNat else none
  | _ => none

/-- An object read entry by entry. -/
def dictOf? {α : Type} (read : Json → Option α) : Json → Option (Dict α)
  | .object entries => entries.mapM fun (name, j) => (read j).map fun value => (name, value)
  | _ => none

/-! ## Keywords and tags -/

/-- The text of a keyword; `nested` keywords may also carry an empty object. -/
def keyword? (nested : Bool) : Json → Option String
  | .string s => some s
  | .object [(s, .null)] => some s
  | .object [(s, .object [])] => if nested then some s else none
  | _ => none

/-- The kind that a tag names. -/
def kindOf? (nested : Bool) (kinds : List String) : Json → Option String
  | .string s => if s ∈ kinds then some s else none
  | .int n => if nested && 0 ≤ n then kinds[n.toNat]? else none
  | _ => none

/-- The name of the member that holds a node's kind. -/
def tagName : String := "$type"

/-- The kind of a tagged node and the record with its fields. -/
def tagged? (nested : Bool) (kinds : List String) : Json → Option (String × Json)
  | .object entries => do
    let tag ← field? entries tagName
    let kind ← tag.bind (kindOf? nested kinds)
    return (kind, .object entries)
  | .array (tag :: rest) => do
    let kind ← kindOf? nested kinds tag
    return (kind, .array rest)
  | _ => none

end Cuesheet.Json
