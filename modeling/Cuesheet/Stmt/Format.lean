import Cuesheet.Stmt.Basic
import Cuesheet.Expr.Format

/-!
# Statements as JSON

A statement is a tagged node. As for expressions, the depth of the value bounds the recursion of
the reader.
-/

set_option autoImplicit false

namespace Cuesheet

/-- The object of a tagged node. -/
def Json.node (kind : String) (fields : List (String × Json)) : Json :=
  .object ((Json.tagName, .string kind) :: fields)

namespace Call

def fieldNames : List String := ["name", "args", "location"]

def toFields (c : Call) : List (String × Json) :=
  [("name", .string c.name), ("args", .array (Expr.listToJson c.arguments)),
    ("location", c.location.toJson)]

def toJson (c : Call) : Json := .object c.toFields

def ofJson? (j : Json) : Option Call := do
  match ← j.fields? fieldNames with
  | [name, arguments, location] =>
    return {
      name := ← Json.required Json.string? name
      arguments := ← Json.withDefault (Json.listOf? Expr.ofJson?) [] arguments
      location := ← Location.ofField? location }
  | _ => none

end Call

namespace Stmt

/-- The kinds of statement, in the order of the language's own list. -/
def kinds : List String :=
  ["OperationCall", "If", "For", "VariableDeclaration", "Break", "Continue"]

mutual

def toJson : Stmt → Json
  | .call c => .node "OperationCall" c.toFields
  | .branch condition thenBody elseBody l =>
    .node "If" [("condition", condition.toJson), ("then", .array (listToJson thenBody)),
      ("else", elseToJson elseBody), ("location", l.toJson)]
  | .loop item collection body l =>
    .node "For" [("itemName", .string item), ("collection", collection.toJson),
      ("body", .array (listToJson body)), ("location", l.toJson)]
  | .declaration d => .node "VariableDeclaration" d.toFields
  | .breakLoop l => .node "Break" [("location", l.toJson)]
  | .continueLoop l => .node "Continue" [("location", l.toJson)]

def listToJson : List Stmt → List Json
  | [] => []
  | s :: rest => s.toJson :: listToJson rest

/-- The second branch as JSON: null when there is none. -/
def elseToJson : Option (List Stmt) → Json
  | none => .null
  | some body => .array (listToJson body)

end

/-- Reads a statement whose nesting fits the budget. -/
def read? : Nat → (nested : Bool) → Json → Option Stmt
  | 0, _, _ => none
  | budget + 1, nested, j => do
    let (kind, record) ← Json.tagged? nested kinds j
    match kind with
    | "OperationCall" => return .call (← Call.ofJson? record)
    | "If" =>
      match ← record.fields? ["condition", "then", "else", "location"] with
      | [condition, thenBody, elseBody, location] =>
        return .branch (← Json.required Expr.ofJson? condition)
          (← Json.withDefault (Json.listOf? (read? budget true)) [] thenBody)
          (← Json.optional (Json.listOf? (read? budget true)) elseBody)
          (← Location.ofField? location)
      | _ => none
    | "For" =>
      match ← record.fields? ["itemName", "collection", "body", "location"] with
      | [item, collection, body, location] =>
        return .loop (← Json.required Json.string? item)
          (← Json.required Expr.ofJson? collection)
          (← Json.withDefault (Json.listOf? (read? budget true)) [] body)
          (← Location.ofField? location)
      | _ => none
    | "VariableDeclaration" => return .declaration (← Declaration.ofJson? record)
    | "Break" =>
      match ← record.fields? ["location"] with
      | [location] => return .breakLoop (← Location.ofField? location)
      | _ => none
    | "Continue" =>
      match ← record.fields? ["location"] with
      | [location] => return .continueLoop (← Location.ofField? location)
      | _ => none
    | _ => none

def ofJson? (nested : Bool) (j : Json) : Option Stmt := read? j.depth nested j

/-- Reads the field of a record that holds a list of statements. -/
def listOfField? (field : Option Json) : Option (List Stmt) :=
  Json.withDefault (Json.listOf? (ofJson? true)) [] field

end Stmt

end Cuesheet
