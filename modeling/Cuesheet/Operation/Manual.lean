import Cuesheet.Operation.Catalogue

/-!
# The operation manual

Text about the catalogue: a page for one operation, and the whole reference with its tables.
-/

set_option autoImplicit false

namespace Cuesheet.Manual

/-- The operation with its parameters; those that may be left out carry a question mark. -/
def signatureLine (op : Signature) : String :=
  let parameters := op.parameters.map fun p => if p.isRequired then p.name else p.name ++ "?"
  op.name ++ "(" ++ ", ".intercalate parameters ++ ")"

/-- What a parameter accepts, for a cell of a table. -/
def acceptedCell (accepted : Accepted) : String := " \\| ".intercalate accepted.describe

/-- Names as code, or a dash. -/
def dataCell (names : List String) : String :=
  if names.isEmpty then "-" else ", ".intercalate (names.map fun n => "`" ++ n ++ "`")

def row (cells : List String) : String := "| " ++ " | ".intercalate cells ++ " |\n"

/-- The section of one category; nothing when it has no operations. -/
def categorySection (category : Category) : String :=
  let ops := Catalogue.operations.filter (·.category = category)
  if ops.isEmpty then ""
  else
    "### " ++ category.slug ++ " (" ++ category.description ++ ")\n" ++
    row ["Operation", "Description", "Reads", "Writes"] ++
    "|-----------|-------------|-------|--------|\n" ++
    String.join (ops.map fun op =>
      row ["`" ++ signatureLine op ++ "`", op.description, dataCell op.dependencies,
        dataCell op.outputs]) ++
    "\n"

/-- The row of one parameter. -/
def parameterRow (p : Parameter) : String :=
  row ["`" ++ p.name ++ "`", acceptedCell p.accepted, if p.isRequired then "yes" else "no",
    p.default.getD "-", p.description]

def page (op : Signature) : String :=
  "## " ++ signatureLine op ++ "\n\n" ++ op.description ++ "\n\n" ++
  (if op.parameters.isEmpty then "Takes no parameters.\n"
   else
    row ["Parameter", "Accepts", "Required", "Default", "Description"] ++
    "|-----------|---------|----------|---------|-------------|\n" ++
    String.join (op.parameters.map parameterRow)) ++
  (if op.dependencies.isEmpty then "" else "\nReads: " ++ dataCell op.dependencies ++ "\n") ++
  (if op.outputs.isEmpty then "" else "\nWrites: " ++ dataCell op.outputs ++ "\n")

/-- The page of the operation called `name`. -/
def page? (name : String) : Option String := (Catalogue.lookup? name).map page

/-- What the reference says before its tables. -/
def introduction : String :=
  "# Eligius Operation Reference\n\n" ++
  "Every operation call in an action body is checked against this table.\n" ++
  "Arguments bind positionally: required parameters first, then optional ones.\n" ++
  "A single object literal whose keys name the remaining parameters is\n" ++
  "flattened, so `animate(\x7bopacity: 1\x7d, 500)` and\n" ++
  "`animate(\x7banimationProperties: \x7bopacity: 1\x7d, animationDuration: 500\x7d)`\n" ++
  "produce the same operation data.\n\n" ++
  "An operation that reads a value (`Reads`) needs an earlier operation in the\n" ++
  "same sequence that writes it (`Writes`).\n\n" ++
  "## Runtime references\n" ++
  "| Source | Lowered form |\n" ++
  "|--------|--------------|\n" ++
  "| action parameter `p` | `$operationdata.p` |\n" ++
  "| event action parameter (position `i`) | `$operationdata.eventArgs[i]` |\n" ++
  "| `@@name` | `$scope.name` |\n" ++
  "| loop variable | `$scope.currentItem` |\n" ++
  "| non-constant local `x` | `$scope.variables.x` |\n" ++
  "| non-constant global `g` | `$globaldata.g` |\n\n"

/-- What the reference says behind its tables. -/
def closing : String :=
  "## Control flow\n" ++
  "| Source | Operations |\n" ++
  "|--------|------------|\n" ++
  "| `if (c) \x7b A \x7d else \x7b B \x7d` | `when(c)`, A, `otherwise()`, B, `endWhen()` |\n" ++
  "| `for (x in xs) \x7b A \x7d` | `forEach(xs, x)`, A, `endForEach()` |\n" ++
  "| `break` / `continue` | `breakForEach()` / `continueForEach()` |\n" ++
  "| `name(args)` (custom action) | `requestAction(name)`, " ++
  "`startAction(\x7bactionOperationData\x7d)` |\n"

/-- The whole reference. -/
def reference : String :=
  introduction ++ "## Operations\n\n" ++ String.join (Category.all.map categorySection) ++ closing

end Cuesheet.Manual
