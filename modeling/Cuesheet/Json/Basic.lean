import Cuesheet.Data.Dict

/-!
# JSON values

Whole numbers and floats are different kinds of number: they are written differently and differ
inside arrays and objects. Objects keep the order of their entries for writing and ignore it in
comparisons. A value in use never repeats a name inside one object; `Json.merged` brings a tree
that does into that form.
-/

set_option autoImplicit false

namespace Cuesheet

/-- A JSON value. -/
inductive Json where
  | null
  | bool (b : Bool)
  | int (n : Int)
  | float (x : Float)
  | string (s : String)
  | array (items : List Json)
  | object (entries : List (String × Json))
  deriving Inhabited

namespace Json

/-- The six kinds of value; both kinds of number are one. -/
inductive Kind where
  | string | number | boolean | null | array | object
  deriving Repr, DecidableEq

def kind : Json → Kind
  | .null => .null
  | .bool _ => .boolean
  | .int _ | .float _ => .number
  | .string _ => .string
  | .array _ => .array
  | .object _ => .object

def Kind.name : Kind → String
  | .string => "string"
  | .number => "number"
  | .boolean => "boolean"
  | .null => "null"
  | .array => "array"
  | .object => "object"

/-- The number a value stands for, as a float. -/
def number? : Json → Option Float
  | .int n => some (Float.ofInt n)
  | .float x => some x
  | _ => none

/-- The text of a string value. -/
def string? : Json → Option String
  | .string s => some s
  | _ => none

/-- The items of an array. -/
def items? : Json → Option (List Json)
  | .array items => some items
  | _ => none

/-- The entries of an object. -/
def entries? : Json → Option (Dict Json)
  | .object entries => some entries
  | _ => none

/-- The member called `name`, if the value is an object that has one. -/
def member? (j : Json) (name : String) : Option Json :=
  match j with
  | .object entries => Dict.get? entries name
  | _ => none

/-- A finite float as a number, anything else as null. -/
def ofFloat (x : Float) : Json := if x.isFinite then .float x else .null

/-- The string, or null when there is none. -/
def ofString? : Option String → Json
  | some s => .string s
  | none => .null

/-- An array of strings. -/
def ofStrings (texts : List String) : Json := .array (texts.map .string)

mutual

/-- Equality of values: numbers only within their kind, objects whatever the order of entries. -/
def same : Json → Json → Bool
  | .null, .null => true
  | .bool a, .bool b => a == b
  | .int a, .int b => a == b
  | .float a, .float b => a == b
  | .string a, .string b => a == b
  | .array a, .array b => sameItems a b
  | .object a, .object b => a.length == b.length && sameEntries a b
  | _, _ => false

/-- Equality of arrays, item by item. -/
def sameItems : List Json → List Json → Bool
  | [], [] => true
  | a :: as, b :: bs => same a b && sameItems as bs
  | _, _ => false

/-- Whether every entry of the first object is matched in the second. -/
def sameEntries : List (String × Json) → List (String × Json) → Bool
  | [], _ => true
  | (name, a) :: rest, others =>
    (match Dict.get? others name with
      | some b => same a b
      | none => false) && sameEntries rest others

end

mutual

/-- How many arrays and objects are open around the innermost value. -/
def depth : Json → Nat
  | .array items => depthItems items + 1
  | .object entries => depthEntries entries + 1
  | _ => 0

/-- The greatest depth among the items. -/
def depthItems : List Json → Nat
  | [] => 0
  | j :: rest => max (depth j) (depthItems rest)

/-- The greatest depth among the members. -/
def depthEntries : List (String × Json) → Nat
  | [] => 0
  | (_, j) :: rest => max (depth j) (depthEntries rest)

end

mutual

/-- Whether every number in the value is finite. -/
def isFinite : Json → Bool
  | .float x => x.isFinite
  | .array items => finiteItems items
  | .object entries => finiteEntries entries
  | _ => true

/-- Whether every number in the items is finite. -/
def finiteItems : List Json → Bool
  | [] => true
  | j :: rest => isFinite j && finiteItems rest

/-- Whether every number in the members is finite. -/
def finiteEntries : List (String × Json) → Bool
  | [] => true
  | (_, j) :: rest => isFinite j && finiteEntries rest

end

mutual

/-- The value with repeated names merged: a name keeps its first place and its last value. -/
def merged : Json → Json
  | .array items => .array (mergedItems items)
  | .object entries => .object (Dict.ofList (mergedEntries entries))
  | j => j

/-- Merges repeated names in every item. -/
def mergedItems : List Json → List Json
  | [] => []
  | j :: rest => merged j :: mergedItems rest

/-- Merges repeated names in every member. -/
def mergedEntries : List (String × Json) → List (String × Json)
  | [] => []
  | (name, j) :: rest => (name, merged j) :: mergedEntries rest

end

end Json

end Cuesheet
