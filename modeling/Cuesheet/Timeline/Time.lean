import Cuesheet.Expr.Format
import Cuesheet.Number.Layout

/-!
# Times

A time expression is a literal with a unit, an offset from the end of the previous event, or
arithmetic on time expressions. Naming a variable is possible to write and never has a value.
Times are floats in seconds.
-/

set_option autoImplicit false

namespace Cuesheet

/-- Units of time. -/
inductive TimeUnit where
  | ms | s | m | h
  deriving Repr, DecidableEq

namespace TimeUnit

/-- Every unit, in the order of the language's own list. -/
def all : List TimeUnit := [ms, s, m, h]

def symbol : TimeUnit → String
  | ms => "ms"
  | s => "s"
  | m => "m"
  | h => "h"

def ofSymbol? (text : String) : Option TimeUnit := all.find? (·.symbol = text)

/-- A number of units in seconds. -/
def toSeconds (unit : TimeUnit) (value : Float) : Float :=
  match unit with
  | ms => value / 1000.0
  | s => value
  | m => value * 60.0
  | h => value * 3600.0

def ofJson? (nested : Bool) (j : Json) : Option TimeUnit := (Json.keyword? nested j).bind ofSymbol?

end TimeUnit

/-- Arithmetic on times. -/
inductive TimeOp where
  | add | sub | mul | div
  deriving Repr, DecidableEq

namespace TimeOp

/-- Every operator, in the order of the language's own list. -/
def all : List TimeOp := [add, sub, mul, div]

def symbol : TimeOp → String
  | add => "+"
  | sub => "-"
  | mul => "*"
  | div => "/"

def ofSymbol? (text : String) : Option TimeOp := all.find? (·.symbol = text)

def ofJson? (j : Json) : Option TimeOp := (Json.keyword? true j).bind ofSymbol?

end TimeOp

/-- A time expression. -/
inductive TimeExpr where
  | literal (value : Float) (unit : TimeUnit) (location : Location)
  /-- An offset from the end of the previous event. -/
  | relative (value : Float) (unit : TimeUnit) (location : Location)
  | binary (op : TimeOp) (left right : TimeExpr) (location : Location)
  | reference (name : String) (location : Location)

namespace TimeExpr

def location : TimeExpr → Location
  | .literal _ _ l | .relative _ _ l | .binary _ _ _ l | .reference _ l => l

/-- The kinds of time expression, in the order of the language's own list. -/
def kinds : List String := ["Literal", "Relative", "Binary", "Reference"]

def toJson : TimeExpr → Json
  | .literal value unit l =>
    .located "Literal" [("value", .ofFloat value), ("unit", .string unit.symbol)] l
  | .relative value unit l =>
    .located "Relative" [("value", .ofFloat value), ("unit", .string unit.symbol)] l
  | .binary op left right l =>
    .located "Binary" [("op", .string op.symbol), ("left", left.toJson), ("right", right.toJson)] l
  | .reference name l => .located "Reference" [("name", .string name)] l

/-- Reads a value and its unit, seconds when none is given. -/
def amount? (record : Json) : Option (Float × TimeUnit) := do
  match ← record.fields? ["value", "unit"] with
  | [value, unit] =>
    return (← Json.required Json.number? value,
      ← Json.withDefault (TimeUnit.ofJson? true) .s unit)
  | _ => none

/-- Reads a time expression whose nesting fits the budget. -/
def read? : Nat → Json → Option TimeExpr
  | 0, _ => none
  | budget + 1, j => do
    let (kind, location, record) ← Json.located? kinds j
    match kind with
    | "Literal" =>
      let (value, unit) ← amount? record
      return .literal value unit location
    | "Relative" =>
      let (value, unit) ← amount? record
      return .relative value unit location
    | "Binary" =>
      match ← record.fields? ["op", "left", "right"] with
      | [op, left, right] =>
        return .binary (← Json.required TimeOp.ofJson? op) (← Json.required (read? budget) left)
          (← Json.required (read? budget) right) location
      | _ => none
    | "Reference" =>
      match ← record.fields? ["name"] with
      | [name] => return .reference (← Json.required Json.string? name) location
      | _ => none
    | _ => none

def ofJson? (j : Json) : Option TimeExpr := read? j.depth j

end TimeExpr

end Cuesheet
