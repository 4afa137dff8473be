import Cuesheet.Operation.Catalogue
import Cuesheet.Operation.Runtime

/-!
# Binding arguments to parameters

Arguments bind to parameters by position. If the last argument is an object with a member for every
required parameter that is still open, and there is such a parameter, its members are taken as
arguments by name: calling with `x` and `y` or with one object that holds both gives the same data.
Members that name no parameter are carried along unchecked.
-/

set_option autoImplicit false

namespace Cuesheet

/-- Why arguments do not fit a signature. -/
inductive ArgumentError where
  | count (operation : String) (least most actual : Nat)
  | type (operation parameter : String) (expected : List String) (actual : String)
  deriving Repr, DecidableEq

namespace ArgumentError

def message : ArgumentError → String
  | count operation least most actual => Catalogue.countMessage operation least most actual
  | type operation parameter expected actual =>
    "Parameter '" ++ parameter ++ "' of operation '" ++ operation ++ "' expects " ++
      " | ".intercalate expected ++ ", got " ++ actual

end ArgumentError

namespace Signature

/-- Checks a value against a parameter. What is known only at run time fits every parameter. -/
def checkType (op : Signature) (p : Parameter) (value : Json) : Except ArgumentError Unit :=
  if p.accepted.accepts value || Runtime.isRuntime value then .ok ()
  else .error (.type op.name p.name p.accepted.describe value.kind.name)

/-- Binds values to parameters, position by position. -/
def bindPositional (op : Signature) :
    List Parameter → List Json → Dict Json → Except ArgumentError (Dict Json)
  | p :: parameters, value :: values, data => do
    op.checkType p value
    bindPositional op parameters values (Dict.set data p.name value)
  | _, _, data => .ok data

/-- Binds the members of an object by name. -/
def bindMembers (op : Signature) :
    List (String × Json) → Dict Json → Except ArgumentError (Dict Json)
  | [], data => .ok data
  | (name, value) :: rest, data => do
    match op.parameter? name with
    | some p => op.checkType p value
    | none => .ok ()
    bindMembers op rest (Dict.set data name value)

/-- The members of `candidate`, the argument at position `index`, if they are to be taken as
arguments by name. -/
def wrapper? (op : Signature) (index : Nat) (candidate : Json) : Option (Dict Json) :=
  match candidate with
  | .object entries =>
    let unfilled := (op.parameters.drop index).filter (·.isRequired)
    if index ≤ op.parameters.length && !unfilled.isEmpty &&
        unfilled.all (fun p => Dict.has entries p.name) then
      some entries
    else none
  | _ => none

/-- The positional arguments and the members of the wrapper behind them, if there is one. -/
def splitWrapper? (op : Signature) (arguments : List Json) : Option (List Json × Dict Json) :=
  match arguments.getLast? with
  | some last =>
    let positional := arguments.dropLast
    (op.wrapper? positional.length last).map fun entries => (positional, entries)
  | none => none

/-- The data of a call: its arguments under the names of the parameters. -/
def bind (op : Signature) (arguments : List Json) : Except ArgumentError (Dict Json) :=
  match op.splitWrapper? arguments with
  | some (positional, entries) => do
    let data ← op.bindPositional op.parameters positional []
    op.bindMembers entries data
  | none =>
    if op.acceptsArity arguments.length then op.bindPositional op.parameters arguments []
    else .error (.count op.name op.requiredCount op.maximalCount arguments.length)

end Signature

end Cuesheet
