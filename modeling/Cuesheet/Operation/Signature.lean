import Cuesheet.Json.Basic

/-!
# Signatures of operations

An operation of the engine has named parameters, the needed ones first. Each parameter accepts
values by type or from a fixed set of texts. An operation reads some entries of the data that its
list of operations shares, and writes others.
-/

set_option autoImplicit false

namespace Cuesheet

/-- What a parameter may hold. Most of these are strings; the name says which string is meant. -/
inductive ParamType where
  | string | number | boolean | object | array
  | className | selector | htmlContent | url | expression | actionName | eventName
  | any
  deriving Repr, DecidableEq

namespace ParamType

/-- Every type, in the order of the catalogue's own list. -/
def all : List ParamType :=
  [string, number, boolean, object, array, className, selector, htmlContent, url, expression,
    actionName, eventName, any]

def name : ParamType → String
  | string => "string"
  | number => "number"
  | boolean => "boolean"
  | object => "object"
  | array => "array"
  | className => "className"
  | selector => "selector"
  | htmlContent => "htmlContent"
  | url => "url"
  | expression => "expression"
  | actionName => "actionName"
  | eventName => "eventName"
  | any => "any"

/-- Whether a value fits the type. -/
def accepts (type : ParamType) (value : Json) : Bool :=
  match type with
  | any => true
  | number => value.kind == .number
  | boolean => value.kind == .boolean
  | object => value.kind == .object
  | array => value.kind == .array
  | string | className | selector | htmlContent | url | expression | actionName | eventName =>
    value.kind == .string

end ParamType

/-- The values a parameter accepts. -/
inductive Accepted where
  | types (types : List ParamType)
  | constants (texts : List String)
  deriving Repr, DecidableEq

namespace Accepted

/-- Whether nothing at all is accepted. -/
def isEmpty : Accepted → Bool
  | types list => list.isEmpty
  | constants list => list.isEmpty

/-- Whether a value is accepted. -/
def accepts : Accepted → Json → Bool
  | types list, value => list.any (·.accepts value)
  | constants list, .string s => list.contains s
  | constants _, _ => false

/-- What is accepted, one text for each alternative. -/
def describe : Accepted → List String
  | types list => list.map (·.name)
  | constants list => list.map fun s => "\"" ++ s ++ "\""

end Accepted

/-- A parameter of an operation. -/
structure Parameter where
  name : String
  accepted : Accepted
  isRequired : Bool
  default : Option String
  description : String
  deriving Repr, DecidableEq

namespace Parameter

/-- A parameter that every call has to give. -/
def needed (name : String) (accepted : Accepted) (description : String) : Parameter :=
  ⟨name, accepted, true, none, description⟩

/-- A parameter that a call may leave out. -/
def extra (name : String) (accepted : Accepted) (default : Option String) (description : String) :
    Parameter :=
  ⟨name, accepted, false, default, description⟩

end Parameter

/-- The groups of operations. -/
inductive Category where
  | dom | cssClass | animation | data | controlFlow | action | event | controller
  deriving Repr, DecidableEq

namespace Category

def all : List Category := [dom, cssClass, animation, data, controlFlow, action, event, controller]

def name : Category → String
  | dom => "Dom"
  | cssClass => "Class"
  | animation => "Animation"
  | data => "Data"
  | controlFlow => "ControlFlow"
  | action => "Action"
  | event => "Event"
  | controller => "Controller"

/-- The name of a category in headings. -/
def slug : Category → String
  | dom => "dom"
  | cssClass => "class"
  | animation => "animation"
  | data => "data"
  | controlFlow => "control-flow"
  | action => "action"
  | event => "event"
  | controller => "controller"

def description : Category → String
  | dom => "Select, create and modify DOM elements"
  | cssClass => "Add, remove and toggle CSS classes"
  | animation => "Animate properties and pause execution"
  | data => "Read and write operation, scope and global data"
  | controlFlow => "Conditional and loop markers produced by if/for"
  | action => "Instantiate and run named actions"
  | event => "Broadcast events to the runtime"
  | controller => "Attach controllers to elements"

end Category

/-- The signature of an operation. The order of the parameters is the order of arguments. -/
structure Signature where
  name : String
  description : String
  category : Category
  parameters : List Parameter
  /-- Entries of the shared data that the operation reads. -/
  dependencies : List String
  /-- Entries of the shared data that the operation writes. -/
  outputs : List String
  deriving Repr, DecidableEq

namespace Signature

/-- How many arguments a call needs at least. -/
def requiredCount (op : Signature) : Nat := (op.parameters.filter (·.isRequired)).length

/-- How many more arguments a call may give. -/
def optionalCount (op : Signature) : Nat := op.parameters.length - op.requiredCount

/-- How many arguments a call may give at most. -/
def maximalCount (op : Signature) : Nat := op.requiredCount + op.optionalCount

/-- Whether a call may give this many arguments. -/
def acceptsArity (op : Signature) (count : Nat) : Bool :=
  op.requiredCount ≤ count && count ≤ op.maximalCount

/-- The parameter called `name`. -/
def parameter? (op : Signature) (name : String) : Option Parameter :=
  op.parameters.find? (·.name = name)

end Signature

/-! ## Signatures as JSON -/

namespace Accepted

def toJson : Accepted → Json
  | types list => .object [("kind", .string "types"), ("values", .ofStrings (list.map (·.name)))]
  | constants list => .object [("kind", .string "constants"), ("values", .ofStrings list)]

end Accepted

namespace Parameter

/-- A parameter as a JSON object; its default is left out when there is none. -/
def toJson (p : Parameter) : Json :=
  .object ([("name", .string p.name), ("types", p.accepted.toJson),
      ("required", .bool p.isRequired)] ++
    (match p.default with
      | some text => [("default", .string text)]
      | none => []) ++
    [("description", .string p.description)])

end Parameter

namespace Signature

def toJson (op : Signature) : Json :=
  .object [("systemName", .string op.name), ("description", .string op.description),
    ("category", .string op.category.name),
    ("parameters", .array (op.parameters.map (·.toJson))),
    ("dependencies", .ofStrings op.dependencies), ("outputs", .ofStrings op.outputs)]

end Signature

end Cuesheet
