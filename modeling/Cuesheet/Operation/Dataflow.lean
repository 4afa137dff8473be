import Cuesheet.Operation.Catalogue

/-!
# Data passed between operations

The operations of a list share a bag of data. An operation may read an entry only if one before it
has written it. Names that are not in the catalogue are passed over.
-/

set_option autoImplicit false

namespace Cuesheet.Dataflow

/-- The entries that have been written, each once. -/
abbrev Available := List String

/-- An entry that is read before any operation has written it. -/
structure Missing where
  operation : String
  dependency : String
  hint : String
  deriving Repr, DecidableEq

/-- How to provide an entry. -/
def hint (operation dependency : String) : String :=
  match Catalogue.producersOf dependency with
  | [] => "Provide '" ++ dependency ++ "' before calling " ++ operation ++ "()."
  | [single] => "Add a call to " ++ single ++ "() before " ++ operation ++ "()."
  | many =>
    "Add a call to one of " ++ ", ".intercalate (many.map (· ++ "()")) ++ " before " ++ operation ++
      "()."

namespace Missing

def message (m : Missing) : String :=
  "Operation '" ++ m.operation ++ "' requires '" ++ m.dependency ++
    "', which no earlier operation provides. " ++ m.hint

end Missing

/-- Everything the operation reads that is not available, in the order of its dependencies. -/
def missing (op : Signature) (available : Available) : List Missing :=
  (op.dependencies.filter (!available.contains ·)).map fun dependency =>
    ⟨op.name, dependency, hint op.name dependency⟩

/-- Adds an entry unless it is there. -/
def addEntry (available : Available) (entry : String) : Available :=
  if available.contains entry then available else available ++ [entry]

/-- What is available behind the operation. -/
def track (op : Signature) (available : Available) : Available :=
  op.outputs.foldl addEntry available

/-- The outcome of a run: what is available where it ended, and the first operation that lacked
an entry, with its position. -/
structure Outcome where
  available : Available
  failure : Option (Nat × Missing)

/-- Runs through a list of operation names from position `index` on. -/
def runFrom (index : Nat) : List String → Available → Outcome
  | [], available => ⟨available, none⟩
  | name :: rest, available =>
    match Catalogue.lookup? name with
    | none => runFrom (index + 1) rest available
    | some op =>
      match missing op available with
      | first :: _ => ⟨available, some (index, first)⟩
      | [] => runFrom (index + 1) rest (track op available)

/-- Runs through a list of operation names. -/
def run (names : List String) (available : Available) : Outcome := runFrom 0 names available

end Cuesheet.Dataflow
