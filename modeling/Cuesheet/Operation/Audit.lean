import Cuesheet.Operation.Catalogue
import Cuesheet.Text.Blank

/-!
# Auditing a catalogue

The rules that a list of signatures has to follow: names are given and distinct, descriptions are
not empty, every parameter accepts something, parameter names are distinct, required parameters
come first, and every dependency is written by some operation.
-/

set_option autoImplicit false

namespace Cuesheet.Catalogue

/-- The problems of the parameters of one operation. `seen` are the names before, `optional` says
whether an optional parameter came before. -/
def parameterProblems (operation : String) (seen : List String) (optional : Bool) :
    List Parameter → List String
  | [] => []
  | p :: rest =>
    let subject := "'" ++ p.name ++ "' of '" ++ operation ++ "'"
    (if p.accepted.isEmpty then ["Parameter " ++ subject ++ " accepts no types"] else []) ++
    (if seen.contains p.name then ["Parameter " ++ subject ++ " is declared twice"] else []) ++
    (if p.isRequired && optional then
      ["Required parameter " ++ subject ++ " follows an optional one"] else []) ++
    parameterProblems operation (p.name :: seen) (optional || !p.isRequired) rest

/-- The dependencies of one operation that none of `ops` writes. -/
def dependencyProblems (ops : List Signature) (op : Signature) : List String :=
  (op.dependencies.filter fun dependency => (producersAmong ops dependency).isEmpty).map
    fun dependency =>
      "Dependency '" ++ dependency ++ "' of '" ++ op.name ++ "' is produced by no operation"

/-- The problems of the operations behind those whose names are `seen`. -/
def operationProblems (ops : List Signature) (seen : List String) : List Signature → List String
  | [] => []
  | op :: rest =>
    (if seen.contains op.name then ["Duplicate operation '" ++ op.name ++ "'"] else []) ++
    (if op.name = "" then ["Operation with empty system name"] else []) ++
    (if Text.isBlankText op.description then
      ["Operation '" ++ op.name ++ "' has an empty description"] else []) ++
    parameterProblems op.name [] false op.parameters ++
    dependencyProblems ops op ++
    operationProblems ops (op.name :: seen) rest

/-- All problems of a list of signatures. -/
def audit (ops : List Signature) : List String := operationProblems ops [] ops

end Cuesheet.Catalogue
