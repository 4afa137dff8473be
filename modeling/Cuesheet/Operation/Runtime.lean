import Cuesheet.Json.Basic

/-!
# Values that the engine looks up

A string that mentions one of the engine's data scopes is looked up or computed when the operation
runs, so its type is not known before. A path is such a string that is nothing but one look-up.
-/

set_option autoImplicit false

namespace Cuesheet.Runtime

/-- The data scopes of the engine. -/
def scopes : List String := ["$operationdata", "$scope", "$globaldata"]

/-- Whether `part` stands at the front of a text. -/
def startsWith : List Char → List Char → Bool
  | [], _ => true
  | _ :: _, [] => false
  | p :: part, c :: text => p = c && startsWith part text

/-- Whether `part` stands anywhere in a text. -/
def occursIn (part : List Char) : List Char → Bool
  | [] => part.isEmpty
  | c :: text => startsWith part (c :: text) || occursIn part text

/-- Whether a text mentions a data scope. -/
def mentionsScope (s : String) : Bool := scopes.any fun scope => occursIn scope.toList s.toList

/-- Whether a value is only known when the operation runs. -/
def isRuntime : Json → Bool
  | .string s => mentionsScope s
  | _ => false

/-- Whether the text behind a scope's name goes on with a member or an index, or ends. -/
def endsScope : List Char → Bool
  | [] => true
  | c :: _ => c = '.' || c = '['

/-- Whether a text is exactly a look-up in a data scope. -/
def isPath (s : String) : Bool :=
  scopes.any fun scope =>
    let name := scope.toList
    startsWith name s.toList && endsScope (s.toList.drop name.length)

end Cuesheet.Runtime
