import Cuesheet.Location

/-!
# Source maps

A source map says for every id of a configuration where in the source its entity stands.
-/

set_option autoImplicit false

namespace Cuesheet.Engine

/-- Locations under the ids they belong to, in the order in which the ids were first used. -/
structure SourceMap where
  entries : Dict Location
  deriving Inhabited

namespace SourceMap

def empty : SourceMap := ⟨[]⟩

def insert (map : SourceMap) (id : String) (location : Location) : SourceMap :=
  ⟨Dict.set map.entries id location⟩

/-- The location of an id. -/
def get? (map : SourceMap) (id : String) : Option Location := Dict.get? map.entries id

def contains (map : SourceMap) (id : String) : Bool := (map.get? id).isSome

/-- The ids, in order. -/
def ids (map : SourceMap) : List String := Dict.keys map.entries

def size (map : SourceMap) : Nat := map.entries.length

/-- The locations under other ids, in the same order. -/
def mapIds (f : String → String) (map : SourceMap) : SourceMap :=
  ⟨map.entries.map fun entry => (f entry.1, entry.2)⟩

def toJson (map : SourceMap) : Json :=
  .object (map.entries.map fun (id, location) => (id, location.toJson))

def ofJson? (j : Json) : Option SourceMap := (Json.dictOf? Location.ofJson? j).map .mk

end SourceMap

end Cuesheet.Engine
