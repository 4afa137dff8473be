import Cuesheet.Json.Record

/-!
# Source locations

Every node of a program may say where it stands in its source text. A node that does not say so
stands at line zero, which no source line has.
-/

set_option autoImplicit false

namespace Cuesheet

/-- A place in a source text; lines count from one. -/
structure Location where
  line : UInt32
  column : UInt32
  length : UInt32
  deriving Repr, DecidableEq

namespace Location

/-- The location of a node that names none. -/
def unknown : Location := ⟨0, 0, 0⟩

instance : Inhabited Location := ⟨unknown⟩

/-- The first column of a line. -/
def onLine (n : UInt32) : Location := ⟨n, 1, 0⟩

/-- Whether the node named no location. -/
def isUnknown (location : Location) : Bool := location.line == 0

def text (location : Location) : String :=
  toString location.line.toNat ++ ":" ++ toString location.column.toNat

def fieldNames : List String := ["line", "column", "length"]

def toJson (location : Location) : Json :=
  .object [("line", .int location.line.toNat), ("column", .int location.column.toNat),
    ("length", .int location.length.toNat)]

def ofJson? (j : Json) : Option Location := do
  match ← j.fields? fieldNames with
  | [line, column, length] =>
    return {
      line := ← Json.required Json.word? line
      column := ← Json.required Json.word? column
      length := ← Json.withDefault Json.word? 0 length }
  | _ => none

/-- The location field of a record: unknown when it is missing. -/
def ofField? (field : Option Json) : Option Location := Json.withDefault ofJson? unknown field

end Location

end Cuesheet
