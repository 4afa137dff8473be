import Cuesheet.Expr.Basic

/-!
# Statements

The body of an action is a list of statements: calls, branches, loops over a collection, local
declarations, and leaving or continuing the innermost loop.
-/

set_option autoImplicit false

namespace Cuesheet

/-- A call by name, of an operation or of an action. -/
structure Call where
  name : String
  arguments : List Expr
  location : Location

/-- A statement. -/
inductive Stmt where
  | call (call : Call)
  | branch (condition : Expr) (thenBody : List Stmt) (elseBody : Option (List Stmt))
      (location : Location)
  | loop (item : String) (collection : Expr) (body : List Stmt) (location : Location)
  | declaration (d : Declaration)
  | breakLoop (location : Location)
  | continueLoop (location : Location)

namespace Stmt

def location : Stmt → Location
  | .call c => c.location
  | .declaration d => d.location
  | .branch _ _ _ l | .loop _ _ _ l | .breakLoop l | .continueLoop l => l

end Stmt

end Cuesheet
