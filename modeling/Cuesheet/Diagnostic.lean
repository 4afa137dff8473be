import Cuesheet.Location

/-!
# Diagnostics

A diagnostic is what a failed compilation shows: the kind of failure, a message, and the place in
the source that it is about.
-/

set_option autoImplicit false

namespace Cuesheet

namespace Diagnostic

/-- The kinds of failure. -/
inductive Kind where
  | invalidTimeline | invalidEvent | validation | invalidExpression
  deriving Repr, DecidableEq

def Kind.all : List Kind := [.invalidTimeline, .invalidEvent, .validation, .invalidExpression]

def Kind.name : Kind → String
  | .invalidTimeline => "InvalidTimeline"
  | .invalidEvent => "InvalidEvent"
  | .validation => "ValidationError"
  | .invalidExpression => "InvalidExpression"

def Kind.ofName? (name : String) : Option Kind := Kind.all.find? (·.name = name)

end Diagnostic

/-- What a failed compilation shows. -/
structure Diagnostic where
  kind : Diagnostic.Kind
  message : String
  location : Location
  deriving Repr, DecidableEq

namespace Diagnostic

/-- The diagnostic on one line, with its place if that is known. -/
def text (d : Diagnostic) : String :=
  let place := if d.location.isUnknown then "" else "line " ++ d.location.text ++ ": "
  "[" ++ d.kind.name ++ "] " ++ place ++ d.message

def toJson (d : Diagnostic) : Json :=
  .object [("code", .string d.kind.name),
    ("detail", .object [("message", .string d.message), ("location", d.location.toJson)])]

end Diagnostic

end Cuesheet
