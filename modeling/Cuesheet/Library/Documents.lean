import Cuesheet.Library.Path
import Cuesheet.Program.Basic

/-!
# Sets of library documents

Libraries are kept under their normalised paths, so every spelling of a path finds the same one.
-/

set_option autoImplicit false

namespace Cuesheet

/-- Libraries under their normalised paths. -/
structure Documents where
  entries : Dict Library
  deriving Inhabited

namespace Documents

def empty : Documents := ⟨[]⟩

/-- Puts a library at a path, in place of the one that is there. -/
def insert (documents : Documents) (path : String) (library : Library) : Documents :=
  ⟨Dict.set documents.entries (Path.normalise path) library⟩

/-- The library at a path. -/
def resolve? (documents : Documents) (path : String) : Option Library :=
  Dict.get? documents.entries (Path.normalise path)

/-- The normalised paths, in the order in which they were first used. -/
def paths (documents : Documents) : List String := Dict.keys documents.entries

def size (documents : Documents) : Nat := documents.entries.length

def ofList (libraries : List (String × Library)) : Documents :=
  libraries.foldl (fun documents entry => documents.insert entry.1 entry.2) empty

end Documents

end Cuesheet
