import Cuesheet.Location

/-!
# Value expressions

An expression is a literal, a collection of expressions, a reference, or an operator applied to
expressions. There are four kinds of reference: a bare identifier names a parameter or the item of
a loop, `@name` a variable, `@@name` a property of the running system, and a chain is a path that
starts at one of the run-time scopes.
-/

set_option autoImplicit false

namespace Cuesheet

/-- Operators between two operands. -/
inductive BinaryOp where
  | add | sub | mul | div | mod
  | eq | ne | lt | le | gt | ge
  | and | or
  deriving Repr, DecidableEq

namespace BinaryOp

/-- Every operator, in the order of the language's own list. -/
def all : List BinaryOp := [add, sub, mul, div, mod, eq, ne, lt, le, gt, ge, and, or]

def symbol : BinaryOp → String
  | add => "+"
  | sub => "-"
  | mul => "*"
  | div => "/"
  | mod => "%"
  | eq => "=="
  | ne => "!="
  | lt => "<"
  | le => "<="
  | gt => ">"
  | ge => ">="
  | and => "&&"
  | or => "||"

def ofSymbol? (s : String) : Option BinaryOp := all.find? (·.symbol = s)

end BinaryOp

/-- Operators with one operand. -/
inductive UnaryOp where
  | neg | not
  deriving Repr, DecidableEq

namespace UnaryOp

/-- Every operator, in the order of the language's own list. -/
def all : List UnaryOp := [neg, not]

def symbol : UnaryOp → String
  | neg => "-"
  | not => "!"

def ofSymbol? (s : String) : Option UnaryOp := all.find? (·.symbol = s)

end UnaryOp

/-- A value expression. -/
inductive Expr where
  | string (value : String) (location : Location)
  | number (value : Float) (location : Location)
  | boolean (value : Bool) (location : Location)
  | null (location : Location)
  | array (elements : List Expr) (location : Location)
  | object (properties : List (String × Expr)) (location : Location)
  /-- A bare identifier: a parameter of the enclosing action, or the item of a loop. -/
  | parameter (name : String) (location : Location)
  /-- `@name`. -/
  | variable (name : String) (location : Location)
  /-- `@@name`. -/
  | system (name : String) (location : Location)
  /-- `$root.a.b`. -/
  | chain (root : String) (properties : List String) (location : Location)
  | binary (op : BinaryOp) (left right : Expr) (location : Location)
  | unary (op : UnaryOp) (operand : Expr) (location : Location)

namespace Expr

def location : Expr → Location
  | .string _ l | .number _ l | .boolean _ l | .null l | .array _ l | .object _ l
  | .parameter _ l | .variable _ l | .system _ l | .chain _ _ l
  | .binary _ _ _ l | .unary _ _ l => l

end Expr

/-- `const name = value`. -/
structure Declaration where
  name : String
  value : Expr
  location : Location

end Cuesheet
