import Cuesheet.Engine.Config
import Cuesheet.Library.Callable
import Cuesheet.Lowering.Value

/-!
# Lowering statements

A list of statements becomes one flat list of operations. Branches and loops are marked by pairs of
operations; a call of an action becomes two operations, one that finds the action and one that runs
it. A declaration that folds leaves no operation, because its value is written where it is used.

The operations carry the source locations they came from in the place of ids.
-/

set_option autoImplicit false

namespace Cuesheet

/-- An operation that is not numbered yet. -/
abbrev DraftOperation := Engine.Operation Location

/-- Which half of an action a call runs. -/
inductive CallHalf where
  | start | finish
  deriving Repr, DecidableEq

namespace CallHalf

/-- The operation that runs the half. -/
def operation : CallHalf → String
  | start => "startAction"
  | finish => "endAction"

end CallHalf

/-- What a body needs to know beside its scope: all callables, and the document it stands in. -/
structure Surroundings where
  callables : Callables
  origin : Origin

namespace Surroundings

/-- The action that a name means here, and the name under which the configuration holds it. -/
def action? (here : Surroundings) (name : String) : Option (String × Action) :=
  (here.callables.find? here.origin name).map fun found =>
    (here.callables.emittedName here.origin found, found.action)

end Surroundings

/-- The arguments of a call under the names of the action's parameters. -/
def argumentData (scope : Scope) : List ActionParameter → List Expr → Lowered (List (String × Json))
  | p :: parameters, e :: arguments => do
    let value ← e.lower scope
    let others ← argumentData scope parameters arguments
    return (p.name, value) :: others
  | _, _ => .ok []

/-- The two operations that run one half of an action, known as `name` in the configuration. -/
def invoke (scope : Scope) (name : String) (action : Action) (arguments : List Expr)
    (half : CallHalf) (location : Location) : Lowered (List DraftOperation) := do
  if action.parameters.length < arguments.length then
    .error ⟨.tooManyArguments name action.parameters.length arguments.length, location⟩
  else
    let data ← argumentData scope action.parameters arguments
    return [
      ⟨location, "requestAction", [("systemName", .string name)]⟩,
      ⟨location, half.operation, [("actionOperationData", .object (Dict.ofList data))]⟩]

/-- A call of an action or, where no action has the name, of an operation of the catalogue. -/
def Call.lower (here : Surroundings) (scope : Scope) (c : Call) : Lowered (List DraftOperation) :=
  match here.action? c.name with
  | some (name, action) => invoke scope name action c.arguments .start c.location
  | none =>
    match Catalogue.lookup? c.name with
    | none =>
      let known := Catalogue.names ++ (here.callables.visibleFrom here.origin).map (·.name)
      .error ⟨.unknownCallee c.name (Text.suggest c.name known), c.location⟩
    | some op => do
      let values ← Expr.lowerList scope c.arguments
      match op.bind values with
      | .ok data => return [⟨c.location, op.name, data⟩]
      | .error e => .error ⟨.arguments e, c.location⟩

/-- A declaration: nothing if it folds, otherwise an operation that sets the variable. -/
def Declaration.lower (scope : Scope) (d : Declaration) : Lowered (List DraftOperation) := do
  let value ← d.value.lower scope
  if (scope.fold? d.value).isSome then return []
  else return [⟨d.location, "setVariable", [("name", .string d.name), ("value", value)]⟩]

/-- An operation that only makes sense inside a loop. -/
def loopOperation (scope : Scope) (keyword operation : String) (location : Location) :
    Lowered (List DraftOperation) :=
  if scope.loopItem?.isSome then .ok [⟨location, operation, []⟩]
  else .error ⟨.outsideLoop keyword, location⟩

namespace Stmt

/-- The scope behind a statement: only a declaration changes it. -/
def scopeAfter (scope : Scope) : Stmt → Scope
  | .declaration d => scope.declare d
  | _ => scope

mutual

/-- The operations of a statement. -/
def lower (here : Surroundings) (scope : Scope) : Stmt → Lowered (List DraftOperation)
  | .call c => c.lower here scope
  | .declaration d => d.lower scope
  | .branch condition thenBody elseBody location => do
    let expression ← condition.condition scope
    let first ← lowerBlock here scope.enterBlock thenBody
    let second ← lowerElse here scope location elseBody
    return ⟨location, "when", [("expression", .string expression)]⟩ ::
      (first ++ second ++ [⟨location, "endWhen", []⟩])
  | .loop item collection body location => do
    let items ← collection.lower scope
    let inner ← lowerBlock here (scope.enterLoop item) body
    return ⟨location, "forEach", [("collection", items), ("itemName", .string item)]⟩ ::
      (inner ++ [⟨location, "endForEach", []⟩])
  | .breakLoop location => loopOperation scope "break" "breakForEach" location
  | .continueLoop location => loopOperation scope "continue" "continueForEach" location

/-- The operations of a list of statements, each in the scope behind those before it. -/
def lowerBlock (here : Surroundings) (scope : Scope) : List Stmt → Lowered (List DraftOperation)
  | [] => .ok []
  | s :: rest => do
    let first ← lower here scope s
    let others ← lowerBlock here (s.scopeAfter scope) rest
    return first ++ others

/-- The operations of a second branch, if there is one. -/
def lowerElse (here : Surroundings) (scope : Scope) (location : Location) :
    Option (List Stmt) → Lowered (List DraftOperation)
  | none => .ok []
  | some body => do
    let operations ← lowerBlock here scope.enterBlock body
    return ⟨location, "otherwise", []⟩ :: operations

end

end Stmt

end Cuesheet
