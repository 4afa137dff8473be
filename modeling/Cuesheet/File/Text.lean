import Cuesheet.Assets
import Cuesheet.Json.Read
import Cuesheet.Program.Basic
import Cuesheet.Settings

/-!
# Documents in files

The text of a file is one JSON value that has to be readable as the document it is meant to be.
Nodes of the program tree may nest 127 levels deep, counted from the outside of the file, and every
literal in them needs a value. Fields that are ignored may hold anything.
-/

set_option autoImplicit false

namespace Cuesheet

/-- How many levels of arrays and objects a node may be part of. -/
def maximalDepth : Nat := 127

/-- Whether a value inside `outer` levels of a file can be a node. -/
def Json.isNodeWithin (outer : Nat) (j : Json) : Bool :=
  j.depth + outer ≤ maximalDepth && j.isFinite

/-- Whether the elements of a program can all be nodes. -/
def Program.nodesFit (j : Json) : Bool :=
  match j.fields? Program.fieldNames with
  | some (some (.array elements) :: _) => elements.all (·.isNodeWithin 2)
  | _ => true

/-- Whether the body of an action of a library can be a node. -/
def Action.bodyFits (j : Json) : Bool :=
  match j.fields? Action.fieldNames with
  | some [_, _, some body, _] => body.isNodeWithin 3
  | _ => true

/-- Whether the bodies of a library's actions can all be nodes. -/
def Library.nodesFit (j : Json) : Bool :=
  match j.fields? Library.fieldNames with
  | some [_, _, some (.array actions)] => actions.all Action.bodyFits
  | _ => true

def Program.ofText? (text : String) : Option Program := do
  let j ← Json.parse? text
  if Program.nodesFit j then Program.ofJson? j else none

def Library.ofText? (text : String) : Option Library := do
  let j ← Json.parse? text
  if Library.nodesFit j then Library.ofJson? j else none

def Assets.ofText? (text : String) : Option Assets := do Assets.ofJson? (← Json.parse? text)

def Settings.ofText? (text : String) : Option Settings := do Settings.ofJson? (← Json.parse? text)

/-! ## Loading -/

/-- Why a file cannot be used. -/
inductive LoadError where
  /-- The file cannot be read. -/
  | access (reason : String)
  /-- The text is not the document it should be. -/
  | form
  /-- The settings are of a newer version. -/
  | version (number : UInt32)
  deriving Repr, DecidableEq

namespace LoadError

def message : LoadError → String
  | access reason => "I/O error: " ++ reason
  | form => "Invalid settings file: not in the expected form"
  | version number => "Unsupported settings version " ++ toString number.toNat

end LoadError

/-- Settings from the text of their file. Without a file they are the default ones. -/
def Settings.load : Option String → Except LoadError Settings
  | none => .ok .default
  | some text =>
    match Settings.ofText? text with
    | none => .error .form
    | some settings =>
      if Settings.currentVersion < settings.version then .error (.version settings.version)
      else .ok settings

end Cuesheet
