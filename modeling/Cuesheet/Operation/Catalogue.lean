import Cuesheet.Operation.Signature
import Cuesheet.Text.Suggest

/-!
# The catalogue of operations

Every operation that the engine knows. Calls are checked against this table, arguments are bound by
it, and the manual is printed from it.
-/

set_option autoImplicit false

namespace Cuesheet.Catalogue

def domOperations : List Signature := [
  { name := "selectElement", category := .dom
    description := "Select the first element matching a CSS selector"
    parameters := [
      .needed "selector" (.types [.selector])
        "CSS selector of the element",
      .extra "useSelectedElementAsRoot" (.types [.boolean]) (some "false")
        "Search below the currently selected element"]
    dependencies := [], outputs := ["selectedElement"] },
  { name := "createElement", category := .dom
    description := "Create a detached element as a template"
    parameters := [
      .needed "elementName" (.types [.string])
        "Tag name, e.g. \"div\"",
      .extra "text" (.types [.string]) none
        "Text content",
      .extra "attributes" (.types [.object]) none
        "Attribute name/value pairs"]
    dependencies := [], outputs := ["template"] },
  { name := "removeElement", category := .dom
    description := "Remove the selected element from the document"
    parameters := []
    dependencies := ["selectedElement"], outputs := [] },
  { name := "clearElement", category := .dom
    description := "Remove all children of the selected element"
    parameters := []
    dependencies := ["selectedElement"], outputs := [] },
  { name := "toggleElement", category := .dom
    description := "Toggle visibility of the selected element"
    parameters := []
    dependencies := ["selectedElement"], outputs := [] },
  { name := "setElementAttributes", category := .dom
    description := "Set attributes on the selected element"
    parameters := [
      .needed "attributes" (.types [.object])
        "Attribute name/value pairs"]
    dependencies := ["selectedElement"], outputs := [] },
  { name := "setStyle", category := .dom
    description := "Set inline CSS properties on the selected element"
    parameters := [
      .needed "properties" (.types [.object])
        "CSS property/value pairs"]
    dependencies := ["selectedElement"], outputs := [] },
  { name := "setElementContent", category := .dom
    description := "Insert content into the selected element"
    parameters := [
      .needed "template" (.types [.string, .htmlContent])
        "HTML or text to insert",
      .extra "insertionType" (.constants ["overwrite", "append", "prepend"]) (some "overwrite")
        "Where the content goes"]
    dependencies := ["selectedElement"], outputs := [] },
  { name := "getElementDimensions", category := .dom
    description := "Measure the selected element"
    parameters := [
      .extra "modifier" (.types [.string]) none
        "Adjustment such as \"+10\""]
    dependencies := ["selectedElement"], outputs := ["dimensions"] },
  { name := "getAttributesFromElement", category := .dom
    description := "Read attribute values from the selected element"
    parameters := [
      .needed "attributeNames" (.types [.array])
        "Names of the attributes to read"]
    dependencies := ["selectedElement"], outputs := ["attributeValues"] }]

def cssClassOperations : List Signature := [
  { name := "addClass", category := .cssClass
    description := "Add a CSS class to the selected element"
    parameters := [
      .needed "className" (.types [.className])
        "Class to add"]
    dependencies := ["selectedElement"], outputs := [] },
  { name := "removeClass", category := .cssClass
    description := "Remove a CSS class from the selected element"
    parameters := [
      .needed "className" (.types [.className])
        "Class to remove"]
    dependencies := ["selectedElement"], outputs := [] },
  { name := "toggleClass", category := .cssClass
    description := "Toggle a CSS class on the selected element"
    parameters := [
      .needed "className" (.types [.className])
        "Class to toggle"]
    dependencies := ["selectedElement"], outputs := [] }]

def animationOperations : List Signature := [
  { name := "animate", category := .animation
    description := "Animate CSS properties of the selected element"
    parameters := [
      .needed "animationProperties" (.types [.object])
        "Target property values",
      .needed "animationDuration" (.types [.number])
        "Duration in milliseconds",
      .extra "animationEasing" (.types [.string]) none
        "Easing function name"]
    dependencies := ["selectedElement"], outputs := [] },
  { name := "wait", category := .animation
    description := "Pause the operation sequence"
    parameters := [
      .needed "milliseconds" (.types [.number])
        "Pause length in milliseconds"]
    dependencies := [], outputs := [] }]

def dataOperations : List Signature := [
  { name := "setData", category := .data
    description := "Write properties into the operation data bag"
    parameters := [
      .needed "properties" (.types [.object])
        "Property name/value pairs"]
    dependencies := [], outputs := [] },
  { name := "setGlobalData", category := .data
    description := "Write properties into the global data store"
    parameters := [
      .needed "properties" (.types [.object])
        "Property name/value pairs"]
    dependencies := [], outputs := [] },
  { name := "setVariable", category := .data
    description := "Assign a scope variable"
    parameters := [
      .needed "name" (.types [.string])
        "Variable name",
      .needed "value" (.types [.any])
        "Value to assign"]
    dependencies := [], outputs := [] },
  { name := "setOperationData", category := .data
    description := "Merge or replace the operation data bag"
    parameters := [
      .needed "properties" (.types [.object])
        "Property name/value pairs",
      .extra "override" (.types [.boolean]) (some "false")
        "Replace instead of merge"]
    dependencies := [], outputs := [] },
  { name := "clearOperationData", category := .data
    description := "Remove properties from the operation data bag"
    parameters := [
      .extra "properties" (.types [.array]) none
        "Names to remove; all when omitted"]
    dependencies := [], outputs := [] },
  { name := "loadJson", category := .data
    description := "Fetch a JSON document"
    parameters := [
      .needed "url" (.types [.url])
        "Location of the document",
      .extra "cache" (.types [.boolean]) (some "true")
        "Reuse earlier responses"]
    dependencies := [], outputs := ["json"] },
  { name := "getQueryParams", category := .data
    description := "Read the page query string"
    parameters := [
      .extra "defaultValues" (.types [.object]) none
        "Fallback values"]
    dependencies := [], outputs := ["queryParams"] },
  { name := "calc", category := .data
    description := "Arithmetic on two numbers"
    parameters := [
      .needed "left" (.types [.number])
        "Left operand",
      .needed "right" (.types [.number])
        "Right operand",
      .needed "operator" (.constants ["+", "-", "*", "/", "%", "**"])
        "Arithmetic operator"]
    dependencies := [], outputs := ["calculationResult"] },
  { name := "log", category := .data
    description := "Write a value to the console"
    parameters := [
      .extra "logValue" (.types [.any]) none
        "Value to log"]
    dependencies := [], outputs := [] }]

def controlFlowOperations : List Signature := [
  { name := "when", category := .controlFlow
    description := "Start a conditional block"
    parameters := [
      .needed "expression" (.types [.expression])
        "Condition evaluated at runtime"]
    dependencies := [], outputs := [] },
  { name := "otherwise", category := .controlFlow
    description := "Start the else branch of a conditional block"
    parameters := []
    dependencies := [], outputs := [] },
  { name := "endWhen", category := .controlFlow
    description := "Close a conditional block"
    parameters := []
    dependencies := [], outputs := [] },
  { name := "forEach", category := .controlFlow
    description := "Start a loop over a collection"
    parameters := [
      .needed "collection" (.types [.array, .expression])
        "Items to iterate",
      .extra "itemName" (.types [.string]) none
        "Name of the loop variable"]
    dependencies := [], outputs := [] },
  { name := "endForEach", category := .controlFlow
    description := "Close a loop"
    parameters := []
    dependencies := [], outputs := [] },
  { name := "breakForEach", category := .controlFlow
    description := "Leave the innermost loop"
    parameters := []
    dependencies := [], outputs := [] },
  { name := "continueForEach", category := .controlFlow
    description := "Skip to the next iteration of the innermost loop"
    parameters := []
    dependencies := [], outputs := [] }]

def actionOperations : List Signature := [
  { name := "requestAction", category := .action
    description := "Look up an action instance by name"
    parameters := [
      .needed "systemName" (.types [.actionName])
        "Name of the action"]
    dependencies := [], outputs := ["actionInstance"] },
  { name := "startAction", category := .action
    description := "Run the start operations of the requested action"
    parameters := [
      .extra "actionOperationData" (.types [.object]) none
        "Arguments passed to the action"]
    dependencies := ["actionInstance"], outputs := [] },
  { name := "endAction", category := .action
    description := "Run the end operations of the requested action"
    parameters := [
      .extra "actionOperationData" (.types [.object]) none
        "Arguments passed to the action"]
    dependencies := ["actionInstance"], outputs := [] }]

def eventOperations : List Signature := [
  { name := "broadcastEvent", category := .event
    description := "Broadcast an event to listeners"
    parameters := [
      .needed "eventName" (.types [.eventName])
        "Event to broadcast",
      .extra "eventArgs" (.types [.array]) none
        "Positional event arguments",
      .extra "eventTopic" (.types [.string]) none
        "Topic filter"]
    dependencies := [], outputs := [] }]

def controllerOperations : List Signature := [
  { name := "getControllerInstance", category := .controller
    description := "Create a controller instance by name"
    parameters := [
      .needed "systemName" (.types [.string])
        "Controller name"]
    dependencies := [], outputs := ["controllerInstance"] },
  { name := "addControllerToElement", category := .controller
    description := "Attach the controller instance to the selected element"
    parameters := [
      .extra "json" (.types [.object]) none
        "Controller configuration"]
    dependencies := ["selectedElement", "controllerInstance"], outputs := [] },
  { name := "removeControllerFromElement", category := .controller
    description := "Detach a controller from the selected element"
    parameters := [
      .needed "controllerName" (.types [.string])
        "Controller name"]
    dependencies := ["selectedElement"], outputs := [] }]

/-- All operations, in the order of the catalogue. -/
def operations : List Signature :=
  domOperations ++ cssClassOperations ++ animationOperations ++ dataOperations ++
    controlFlowOperations ++ actionOperations ++ eventOperations ++ controllerOperations

/-- The names of all operations. -/
def names : List String := operations.map (·.name)

/-- The operation called `name`. -/
def lookup? (name : String) : Option Signature := operations.find? (·.name = name)

/-- The names of the operations among `ops` that write `output`. -/
def producersAmong (ops : List Signature) (output : String) : List String :=
  (ops.filter (·.outputs.contains output)).map (·.name)

/-- The names of the operations that write `output`. -/
def producersOf (output : String) : List String := producersAmong operations output

/-- The operations to suggest in place of an unknown name. -/
def suggest (name : String) : List String := Text.suggest name names

/-! ## Checking a call -/

/-- Why a call does not fit the catalogue. -/
inductive CallError where
  | unknown (name : String) (suggestions : List String)
  | count (operation : String) (least most actual : Nat)
  deriving Repr, DecidableEq

/-- How a range of counts is written. -/
def countRange (least most : Nat) : String :=
  if least = most then toString least else toString least ++ "..=" ++ toString most

/-- The message for a wrong number of arguments. -/
def countMessage (operation : String) (least most actual : Nat) : String :=
  "Operation '" ++ operation ++ "' expects " ++ countRange least most ++ " argument(s), got " ++
    toString actual

def CallError.message : CallError → String
  | .unknown name suggestions =>
    "Unknown operation '" ++ name ++ "'" ++ Text.suggestionText suggestions
  | .count operation least most actual => countMessage operation least most actual

/-- The operation of a call with `count` arguments, if the catalogue has one that fits. -/
def checkCall (name : String) (count : Nat) : Except CallError Signature :=
  match lookup? name with
  | none => .error (.unknown name (suggest name))
  | some op =>
    if op.acceptsArity count then .ok op
    else .error (.count name op.requiredCount op.maximalCount count)

end Cuesheet.Catalogue
