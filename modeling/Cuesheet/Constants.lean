import Cuesheet.Expr.Fold

/-!
# Constants

A declaration whose initialiser folds binds its name to a value. The first binding of a name
stays: a later one of the same name changes nothing, until the name is removed.
`Constants.ofDeclarations` folds the declarations of a program in order, so an initialiser sees
the constants declared before it and no others.
-/

set_option autoImplicit false

namespace Cuesheet

/-- What is kept of a declaration that folded: its name, its value with the kind of that value, and
its place. -/
structure Binding where
  name : String
  value : Json
  type : Json.Kind
  location : Location

namespace Binding

/-- What is kept of a declaration that folds to `value`. -/
def ofDeclaration (d : Declaration) (value : Json) : Binding :=
  ⟨d.name, value, value.kind, d.location⟩

end Binding

/-- Bindings under their names, in the order of their declarations. -/
structure Constants where
  entries : Dict Binding
  deriving Inhabited

namespace Constants

def empty : Constants := ⟨[]⟩

/-- The bindings, in order. -/
def bindings (constants : Constants) : List Binding := Dict.values constants.entries

/-- The binding of a name. -/
def get? (constants : Constants) (name : String) : Option Binding :=
  Dict.get? constants.entries name

/-- The value of a name. -/
def constant? (constants : Constants) (name : String) : Option Json :=
  (constants.get? name).map (·.value)

def contains (constants : Constants) (name : String) : Bool := (constants.get? name).isSome

/-- The bound names, in order. -/
def names (constants : Constants) : List String := constants.bindings.map (·.name)

/-- Binds the declared name to `value`, unless it is bound already. -/
def bind (constants : Constants) (d : Declaration) (value : Json) : Constants :=
  if constants.contains d.name then constants
  else ⟨constants.entries ++ [(d.name, .ofDeclaration d value)]⟩

/-- Removes the binding of a name. -/
def remove (constants : Constants) (name : String) : Constants :=
  ⟨constants.entries.filter (·.1 ≠ name)⟩

/-- Binds the declared name if its initialiser folds against `constant?`. -/
def tryBind (constants : Constants) (d : Declaration) (constant? : String → Option Json) :
    Constants :=
  match d.value.fold? constant? with
  | some value => constants.bind d value
  | none => constants

/-- The constants of a list of declarations, each folded against those before it. -/
def ofDeclarations (declarations : List Declaration) : Constants :=
  declarations.foldl (fun constants d => constants.tryBind d constants.constant?) empty

end Constants

end Cuesheet
