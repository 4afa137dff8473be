import Cuesheet.Program.Action
import Cuesheet.Timeline.Basic

/-!
# Programs and libraries

A program is a list of elements in source order: imports of assets and of libraries, global
variables, actions, event actions and timelines. A library defines actions and may import others.
-/

set_option autoImplicit false

namespace Cuesheet

/-- What an imported asset is for. -/
inductive AssetKind where
  | layout | styles | provider
  deriving Repr, DecidableEq

namespace AssetKind

/-- Every kind, in the order of the language's own list. -/
def all : List AssetKind := [layout, styles, provider]

def keyword : AssetKind → String
  | layout => "layout"
  | styles => "styles"
  | provider => "provider"

def ofJson? (j : Json) : Option AssetKind :=
  (Json.keyword? true j).bind fun text => all.find? (·.keyword = text)

end AssetKind

/-- The import of an asset. -/
structure AssetImport where
  kind : AssetKind
  path : String
  location : Location

/-- One action named by an import, perhaps under another name. -/
structure ActionImport where
  action : String
  as : Option String
  location : Location

/-- The import of actions from a library. -/
structure LibraryImport where
  path : String
  actions : List ActionImport
  location : Location

/-- A library. -/
structure Library where
  name : String
  imports : List LibraryImport
  actions : List Action

/-- An element of a program. -/
inductive Element where
  | assetImport (i : AssetImport)
  | libraryImport (i : LibraryImport)
  | declaration (d : Declaration)
  | action (a : Action)
  | eventAction (a : EventAction)
  | timeline (t : Timeline)

/-- A program. -/
structure Program where
  elements : List Element
  location : Location

namespace Program

/-- The declarations of globals, in order. -/
def declarations (p : Program) : List Declaration :=
  p.elements.filterMap fun | .declaration d => some d | _ => none

/-- The actions, in order. -/
def actions (p : Program) : List Action :=
  p.elements.filterMap fun | .action a => some a | _ => none

/-- The event actions, in order. -/
def eventActions (p : Program) : List EventAction :=
  p.elements.filterMap fun | .eventAction a => some a | _ => none

/-- The timelines, in order. -/
def timelines (p : Program) : List Timeline :=
  p.elements.filterMap fun | .timeline t => some t | _ => none

/-- The imports of libraries, in order. -/
def libraryImports (p : Program) : List LibraryImport :=
  p.elements.filterMap fun | .libraryImport i => some i | _ => none

/-- The imports of assets, in order. -/
def assetImports (p : Program) : List AssetImport :=
  p.elements.filterMap fun | .assetImport i => some i | _ => none

end Program

/-! ## As JSON -/

namespace AssetImport

def toFields (i : AssetImport) : List (String × Json) :=
  [("kind", .string i.kind.keyword), ("path", .string i.path), ("location", i.location.toJson)]

def ofJson? (j : Json) : Option AssetImport := do
  match ← j.fields? ["kind", "path", "location"] with
  | [kind, path, location] =>
    return {
      kind := ← Json.required AssetKind.ofJson? kind
      path := ← Json.required Json.string? path
      location := ← Location.ofField? location }
  | _ => none

end AssetImport

namespace ActionImport

def toJson (i : ActionImport) : Json :=
  .object [("action", .string i.action), ("alias", .ofString? i.as),
    ("location", i.location.toJson)]

def ofJson? (j : Json) : Option ActionImport := do
  match ← j.fields? ["action", "alias", "location"] with
  | [action, as, location] =>
    return {
      action := ← Json.required Json.string? action
      as := ← Json.optional Json.string? as
      location := ← Location.ofField? location }
  | _ => none

end ActionImport

namespace LibraryImport

def toFields (i : LibraryImport) : List (String × Json) :=
  [("path", .string i.path), ("actions", .array (i.actions.map (·.toJson))),
    ("location", i.location.toJson)]

def toJson (i : LibraryImport) : Json := .object i.toFields

def ofJson? (j : Json) : Option LibraryImport := do
  match ← j.fields? ["path", "actions", "location"] with
  | [path, actions, location] =>
    return {
      path := ← Json.required Json.string? path
      actions := ← Json.withDefault (Json.listOf? ActionImport.ofJson?) [] actions
      location := ← Location.ofField? location }
  | _ => none

end LibraryImport

namespace Library

def fieldNames : List String := ["name", "imports", "actions"]

def toJson (l : Library) : Json :=
  .object [("name", .string l.name), ("imports", .array (l.imports.map (·.toJson))),
    ("actions", .array (l.actions.map (·.toJson)))]

def ofJson? (j : Json) : Option Library := do
  match ← j.fields? fieldNames with
  | [name, imports, actions] =>
    return {
      name := ← Json.required Json.string? name
      imports := ← Json.withDefault (Json.listOf? LibraryImport.ofJson?) [] imports
      actions := ← Json.withDefault (Json.listOf? (Action.ofJson? false)) [] actions }
  | _ => none

end Library

namespace Element

/-- The kinds of element, in the order of the language's own list. -/
def kinds : List String :=
  ["AssetImport", "LibraryImport", "VariableDeclaration", "ActionDefinition",
    "EventActionDefinition", "Timeline"]

def toJson : Element → Json
  | assetImport i => .node "AssetImport" i.toFields
  | libraryImport i => .node "LibraryImport" i.toFields
  | declaration d => .node "VariableDeclaration" d.toFields
  | action a => .node "ActionDefinition" a.toFields
  | eventAction a => .node "EventActionDefinition" a.toFields
  | timeline t => .node "Timeline" t.toFields

def ofJson? (j : Json) : Option Element := do
  let (kind, record) ← Json.tagged? false kinds j
  match kind with
  | "AssetImport" => return .assetImport (← AssetImport.ofJson? record)
  | "LibraryImport" => return .libraryImport (← LibraryImport.ofJson? record)
  | "VariableDeclaration" => return .declaration (← Declaration.ofJson? record)
  | "ActionDefinition" => return .action (← Action.ofJson? true record)
  | "EventActionDefinition" => return .eventAction (← EventAction.ofJson? record)
  | "Timeline" => return .timeline (← Timeline.ofJson? true record)
  | _ => none

end Element

namespace Program

def fieldNames : List String := ["elements", "location"]

def toJson (p : Program) : Json :=
  .object [("elements", .array (p.elements.map (·.toJson))), ("location", p.location.toJson)]

def ofJson? (j : Json) : Option Program := do
  match ← j.fields? fieldNames with
  | [elements, location] =>
    return {
      elements := ← Json.withDefault (Json.listOf? Element.ofJson?) [] elements
      location := ← Location.ofField? location }
  | _ => none

end Program

end Cuesheet
