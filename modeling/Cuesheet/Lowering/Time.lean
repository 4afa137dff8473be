import Cuesheet.Lowering.Error
import Cuesheet.Timeline.Basic

/-!
# Computing times

Times in seconds. An offset counts from the end of the previous event; in a duration it counts
from zero, so that it is just its amount.
-/

set_option autoImplicit false

namespace Cuesheet.TimeExpr

/-- The time of an expression behind an event that ended at `previous`. -/
def seconds (previous : Float) : TimeExpr → Lowered Float
  | .literal value unit _ => .ok (unit.toSeconds value)
  | .relative value unit _ => .ok (previous + unit.toSeconds value)
  | .binary op left right location => do
    let l ← seconds previous left
    let r ← seconds previous right
    match op with
    | .add => return l + r
    | .sub => return l - r
    | .mul => return l * r
    | .div => if r == 0.0 then .error ⟨.timeDivision, location⟩ else return l / r
  | .reference name location => .error ⟨.timeVariable name, location⟩

/-- The length of time of an expression: neither negative nor without a finite size. -/
def duration (e : TimeExpr) : Lowered Float := do
  let length ← e.seconds 0.0
  if length < 0.0 || !length.isFinite then .error ⟨.duration length, e.location⟩
  else return length

end Cuesheet.TimeExpr
