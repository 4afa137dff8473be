import Cuesheet.Lowering.Error
import Cuesheet.Operation.Runtime
import Cuesheet.Scope

/-!
# Lowering expressions

An expression that folds is lowered to its value. Of the others, references become paths into the
engine's data, collections are lowered part by part, and operators become infix text for the engine
to compute. A condition is always text.
-/

set_option autoImplicit false

namespace Cuesheet

namespace DataPath

/-- The item of the innermost loop. -/
def loopItem : String := "$scope.currentItem"

/-- A parameter of an action. -/
def parameter (name : String) : String := "$operationdata." ++ name

/-- An argument of an event. -/
def eventArgument (index : Nat) : String := "$operationdata.eventArgs[" ++ toString index ++ "]"

/-- A property of the running system. -/
def system (name : String) : String := "$scope." ++ name

/-- A local that is set at run time. -/
def localVariable (name : String) : String := "$scope.variables." ++ name

/-- A global that is set at run time. -/
def globalVariable (name : String) : String := "$globaldata." ++ name

/-- A chain of properties. Dollar signs in front of its root are replaced by one. -/
def chain (root : String) (properties : List String) : String :=
  String.ofList ('$' :: root.toList.dropWhile (· == '$')) ++
    String.join (properties.map fun p => "." ++ p)

end DataPath

namespace Scope

/-- The path of a bare name. -/
def lowerParameter (scope : Scope) (name : String) (location : Location) : Lowered Json :=
  match scope.identifier? name with
  | some .loopItem => .ok (.string DataPath.loopItem)
  | some (.parameter index .positional) => .ok (.string (DataPath.eventArgument index))
  | some (.parameter _ .named) => .ok (.string (DataPath.parameter name))
  | some .outerLoopItem => .error ⟨.outerLoopItem name, location⟩
  | some (.staggerItem item) => .ok item
  | none =>
    if scope.inAction then
      .error ⟨.unknownParameter name (Text.suggest name scope.parameters), location⟩
    else .error ⟨.parameterOutsideAction name, location⟩

/-- The names of all globals, constants first. -/
def globalNames (scope : Scope) : List String :=
  scope.globals.constants.names ++ scope.globals.runtime

/-- The path of a variable that is not constant. -/
def lowerVariable (scope : Scope) (name : String) (location : Location) : Lowered Json :=
  if scope.loopItem? = some name then .ok (.string DataPath.loopItem)
  else if scope.isRuntimeLocal name then .ok (.string (DataPath.localVariable name))
  else if scope.isRuntimeGlobal name then .ok (.string (DataPath.globalVariable name))
  else .error ⟨.unknownVariable name (Text.suggest name scope.globalNames), location⟩

/-- The value or the path of a system property. -/
def lowerSystem (scope : Scope) (name : String) : Json :=
  match scope.systemProperty? name with
  | some (.staggerItem item) => item
  | some .loopItem => .string DataPath.loopItem
  | _ => .string (DataPath.system name)

end Scope

/-- The text of a lowered operand: a path as it is, anything else as JSON text. -/
def operandText : Json → String
  | .string s => if Runtime.isPath s then s else (Json.string s).compact
  | j => j.compact

namespace Expr

/-- Infix text of an operator between two texts; inside another operator it is put in brackets. -/
def infixText (nested : Bool) (op : BinaryOp) (left right : String) : String :=
  let text := left ++ " " ++ op.symbol ++ " " ++ right
  if nested then "(" ++ text ++ ")" else text

mutual

/-- The value of an expression in the data of an operation. -/
def lower (scope : Scope) (e : Expr) : Lowered Json :=
  match scope.fold? e with
  | some value => .ok value
  | none =>
    match e with
    | .array elements _ => do
      let values ← lowerList scope elements
      return .array values
    | .object properties _ => do
      let entries ← lowerProperties scope properties
      return .object (Dict.ofList entries)
    | .binary op left right _ => do
      let l ← operand scope left
      let r ← operand scope right
      return .string (infixText false op l r)
    | .unary op inner _ => do
      let text ← operand scope inner
      return .string (op.symbol ++ text)
    | .parameter name location => scope.lowerParameter name location
    | .variable name location => scope.lowerVariable name location
    | .system name _ => return scope.lowerSystem name
    | .chain root properties _ => return .string (DataPath.chain root properties)
    | .string _ location | .number _ location | .boolean _ location | .null location =>
      .error ⟨.unsupportedExpression, location⟩

/-- The text of an expression that stands inside an operator. -/
def operand (scope : Scope) (e : Expr) : Lowered String :=
  match scope.fold? e with
  | some value => .ok value.compact
  | none =>
    match e with
    | .binary op left right _ => do
      let l ← operand scope left
      let r ← operand scope right
      return infixText true op l r
    | .unary op inner _ => do
      let text ← operand scope inner
      return op.symbol ++ text
    | .array elements _ => do
      let values ← lowerList scope elements
      return operandText (.array values)
    | .object properties _ => do
      let entries ← lowerProperties scope properties
      return operandText (.object (Dict.ofList entries))
    | .parameter name location => (scope.lowerParameter name location).map operandText
    | .variable name location => (scope.lowerVariable name location).map operandText
    | .system name _ => return operandText (scope.lowerSystem name)
    | .chain root properties _ => return operandText (.string (DataPath.chain root properties))
    | .string _ location | .number _ location | .boolean _ location | .null location =>
      .error ⟨.unsupportedExpression, location⟩

/-- The values of expressions, one by one. -/
def lowerList (scope : Scope) : List Expr → Lowered (List Json)
  | [] => .ok []
  | e :: rest => do
    let value ← lower scope e
    let values ← lowerList scope rest
    return value :: values

/-- The values of properties, one by one. -/
def lowerProperties (scope : Scope) : List (String × Expr) → Lowered (List (String × Json))
  | [] => .ok []
  | (key, e) :: rest => do
    let value ← lower scope e
    let values ← lowerProperties scope rest
    return (key, value) :: values

end

/-- The text of a condition: infix text as for an operand, but not put in brackets. -/
def condition (scope : Scope) (e : Expr) : Lowered String :=
  match scope.fold? e with
  | some value => .ok value.compact
  | none =>
    match e with
    | .binary op left right _ => do
      let l ← operand scope left
      let r ← operand scope right
      return infixText false op l r
    | e => operand scope e

end Expr

end Cuesheet
