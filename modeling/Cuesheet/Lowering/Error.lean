import Cuesheet.Diagnostic
import Cuesheet.Number.Layout
import Cuesheet.Operation.Arguments
import Cuesheet.Operation.Dataflow
import Cuesheet.Text.Suggest

/-!
# Why lowering fails

Each constructor of `Cause` is one reason. The kind of a reason and its wording are given here and
nowhere else.
-/

set_option autoImplicit false

namespace Cuesheet

namespace LowerError

/-- A reason for which a program cannot be lowered. -/
inductive Cause where
  | noTimeline
  | timeRange (start finish : Float)
  | sequenceWindow
  | staggerWindow
  | staggerItems
  | duration (seconds : Float)
  | unknownCallee (name : String) (suggestions : List String)
  | unknownAction (name : String) (suggestions : List String)
  | tooManyArguments (action : String) (most actual : Nat)
  | outsideLoop (keyword : String)
  | arguments (error : ArgumentError)
  | missingData (owner : String) (missing : Dataflow.Missing)
  | outerLoopItem (name : String)
  | parameterOutsideAction (name : String)
  | unknownParameter (name : String) (suggestions : List String)
  | unknownVariable (name : String) (suggestions : List String)
  | unsupportedExpression
  | timeDivision
  | timeVariable (name : String)

namespace Cause

def kind : Cause → Diagnostic.Kind
  | noTimeline => .invalidTimeline
  | timeRange _ _ | sequenceWindow | staggerWindow | staggerItems | duration _ => .invalidEvent
  | unknownCallee _ _ | unknownAction _ _ | tooManyArguments _ _ _ | outsideLoop _ | arguments _
  | missingData _ _ => .validation
  | outerLoopItem _ | parameterOutsideAction _ | unknownParameter _ _ | unknownVariable _ _
  | unsupportedExpression | timeDivision | timeVariable _ => .invalidExpression

def message : Cause → String
  | noTimeline => "A program must declare at least one timeline"
  | timeRange start finish =>
    "Invalid time range " ++ Number.messageText start ++ "s.." ++ Number.messageText finish ++
      "s: start must be >= 0 and end must not precede start"
  | sequenceWindow => "Invalid sequence item duration"
  | staggerWindow => "Invalid stagger timing"
  | staggerItems => "Stagger items must be a constant array"
  | duration seconds =>
    "Duration must be a non-negative time, got " ++ Number.messageText seconds ++ "s"
  | unknownCallee name suggestions =>
    "Unknown operation or action '" ++ name ++ "'" ++ Text.suggestionText suggestions
  | unknownAction name suggestions =>
    "Unknown action '" ++ name ++ "'" ++ Text.suggestionText suggestions
  | tooManyArguments action most actual =>
    "Action '" ++ action ++ "' takes " ++ toString most ++ " argument(s), got " ++ toString actual
  | outsideLoop keyword => "'" ++ keyword ++ "' can only be used inside a for loop"
  | arguments error => error.message
  | missingData owner missing => "In '" ++ owner ++ "': " ++ missing.message
  | outerLoopItem name =>
    "Loop variable '" ++ name ++ "' belongs to an enclosing loop and is not accessible here"
  | parameterOutsideAction name =>
    "Parameter reference '" ++ name ++ "' is only valid inside an action body"
  | unknownParameter name suggestions =>
    "Unknown parameter '" ++ name ++ "'" ++ Text.suggestionText suggestions
  | unknownVariable name suggestions =>
    "Unknown variable '@" ++ name ++ "'" ++ Text.suggestionText suggestions
  | unsupportedExpression => "Unsupported expression form"
  | timeDivision => "Division by zero in time expression"
  | timeVariable name =>
    "Variable '" ++ name ++ "' cannot be used as a time; time expressions must be literals"

end Cause

end LowerError

/-- A reason with the place in the source that it is about. -/
structure LowerError where
  cause : LowerError.Cause
  location : Location

namespace LowerError

/-- What is shown about the error. -/
def diagnostic (e : LowerError) : Diagnostic := ⟨e.cause.kind, e.cause.message, e.location⟩

end LowerError

/-- A result, or the first reason for which there is none. -/
abbrev Lowered (α : Type) := Except LowerError α

end Cuesheet
