import Cuesheet.Expr.Basic
import Cuesheet.Json.Write
import Cuesheet.Number.Dyadic

/-!
# Folding expressions to values

`Expr.fold?` computes an expression at compile time, given the values of the variables that are
constant where it stands. An expression that depends on run time has no value, and neither has an
operator without a result, such as a division by zero.

Conditions follow the engine's rule for truth: null, false, zero and the empty string are false.
-/

set_option autoImplicit false

namespace Cuesheet

namespace Json

/-- Below this size every whole float is the only float for its whole number. -/
def exactLimit : Nat := 9007199254740992

/-- The number as a value: whole numbers of moderate size as integers, other finite ones as
floats. -/
def ofNumber? (x : Float) : Option Json :=
  (Dyadic.ofFloat? x).map fun d =>
    if d.isWhole && d.truncate.natAbs < exactLimit then .int d.truncate else .float x

/-- Whether the engine takes the value for true. -/
def truthy : Json → Bool
  | .null => false
  | .bool b => b
  | .int n => n != 0
  | .float x => x != 0.0 && !x.isNaN
  | .string s => s != ""
  | .array _ | .object _ => true

/-- Two numbers closer than this are equal for the equality operators. -/
def epsilon : Float := 2.220446049250313e-16

/-- Equality as the operators see it: numbers whatever their kind, anything else by structure. -/
def looselyEqual (l r : Json) : Bool :=
  match l.number?, r.number? with
  | some a, some b => (a - b).abs < epsilon
  | _, _ => l.same r

/-- The order of two strings or two numbers; nothing else is ordered. -/
def order? (l r : Json) : Option Ordering :=
  match l, r with
  | .string a, .string b => some (if a < b then .lt else if a = b then .eq else .gt)
  | l, r => do
    let a ← l.number?
    let b ← r.number?
    if a < b then some .lt else if a == b then some .eq else if b < a then some .gt else none

end Json

/-- The value of an operator with one operand. -/
def UnaryOp.apply? (op : UnaryOp) (value : Json) : Option Json :=
  match op with
  | .neg => do Json.ofNumber? (-(← value.number?))
  | .not => some (.bool !value.truthy)

/-- The value of an operator between two operands. -/
def BinaryOp.apply? (op : BinaryOp) (l r : Json) : Option Json :=
  match op with
  | .add =>
    match l, r with
    | .string a, b => some (.string (a ++ b.display))
    | a, .string b => some (.string (a.display ++ b))
    | a, b => do Json.ofNumber? ((← a.number?) + (← b.number?))
  | .sub => do Json.ofNumber? ((← l.number?) - (← r.number?))
  | .mul => do Json.ofNumber? ((← l.number?) * (← r.number?))
  | .div => do
    let divisor ← r.number?
    if divisor == 0.0 then none else Json.ofNumber? ((← l.number?) / divisor)
  | .mod => do
    let divisor ← r.number?
    if divisor == 0.0 then none else Json.ofNumber? (Number.remainder (← l.number?) divisor)
  | .eq => some (.bool (l.looselyEqual r))
  | .ne => some (.bool !l.looselyEqual r)
  | .lt => (Json.order? l r).map fun o => .bool (o == .lt)
  | .le => (Json.order? l r).map fun o => .bool (o != .gt)
  | .gt => (Json.order? l r).map fun o => .bool (o == .gt)
  | .ge => (Json.order? l r).map fun o => .bool (o != .lt)
  | .and => some (if l.truthy then r else l)
  | .or => some (if l.truthy then l else r)

namespace Expr

mutual

/-- The value of an expression whose variables have the values that `constant?` gives. -/
def fold? (constant? : String → Option Json) : Expr → Option Json
  | .string value _ => some (.string value)
  | .number value _ => Json.ofNumber? value
  | .boolean value _ => some (.bool value)
  | .null _ => some .null
  | .array elements _ => (foldList? constant? elements).map .array
  | .object properties _ =>
    (foldProperties? constant? properties).map fun entries => .object (Dict.ofList entries)
  | .variable name _ => constant? name
  | .parameter _ _ | .system _ _ | .chain _ _ _ => none
  | .unary op operand _ => do
    let value ← fold? constant? operand
    op.apply? value
  | .binary op left right _ => do
    let l ← fold? constant? left
    let r ← fold? constant? right
    op.apply? l r

/-- The values of expressions that all have one. -/
def foldList? (constant? : String → Option Json) : List Expr → Option (List Json)
  | [] => some []
  | e :: rest => do
    let value ← fold? constant? e
    let values ← foldList? constant? rest
    return value :: values

/-- The values of properties that all have one. -/
def foldProperties? (constant? : String → Option Json) :
    List (String × Expr) → Option (List (String × Json))
  | [] => some []
  | (key, e) :: rest => do
    let value ← fold? constant? e
    let values ← foldProperties? constant? rest
    return (key, value) :: values

end

end Expr

end Cuesheet
