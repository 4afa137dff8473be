import Cuesheet.Expr.Basic

/-!
# Expressions as JSON

An expression is an object with its kind under `$type`, its own fields, and its location. The
reader takes the depth of the value as its budget: an expression inside another one lies at least
one level deeper.
-/

set_option autoImplicit false

namespace Cuesheet

/-- A node that is always an object: its kind, its location, and the object itself. -/
def Json.located? (kinds : List String) : Json → Option (String × Location × Json)
  | .object entries => do
    let (kind, record) ← Json.tagged? true kinds (.object entries)
    let location ← Location.ofField? (← Json.field? entries "location")
    return (kind, location, record)
  | _ => none

/-- The object of a node of the given kind. -/
def Json.located (kind : String) (fields : List (String × Json)) (location : Location) : Json :=
  .object ((Json.tagName, .string kind) :: fields ++ [("location", location.toJson)])

namespace BinaryOp

def ofJson? (j : Json) : Option BinaryOp := (Json.keyword? true j).bind ofSymbol?

end BinaryOp

namespace UnaryOp

def ofJson? (j : Json) : Option UnaryOp := (Json.keyword? true j).bind ofSymbol?

end UnaryOp

namespace Expr

/-- The kinds of expression, in the order of the language's own list. -/
def kinds : List String :=
  ["String", "Number", "Boolean", "Null", "Array", "Object", "ParameterReference",
    "VariableReference", "SystemPropertyReference", "PropertyChain", "Binary", "Unary"]

mutual

def toJson : Expr → Json
  | .string value l => .located "String" [("value", .string value)] l
  | .number value l => .located "Number" [("value", .ofFloat value)] l
  | .boolean value l => .located "Boolean" [("value", .bool value)] l
  | .null l => .located "Null" [] l
  | .array elements l => .located "Array" [("elements", .array (listToJson elements))] l
  | .object properties l =>
    .located "Object" [("properties", .array (propertiesToJson properties))] l
  | .parameter name l => .located "ParameterReference" [("name", .string name)] l
  | .variable name l => .located "VariableReference" [("name", .string name)] l
  | .system name l => .located "SystemPropertyReference" [("name", .string name)] l
  | .chain root properties l =>
    .located "PropertyChain" [("scope", .string root), ("properties", .ofStrings properties)] l
  | .binary op left right l =>
    .located "Binary" [("op", .string op.symbol), ("left", left.toJson), ("right", right.toJson)] l
  | .unary op operand l =>
    .located "Unary" [("op", .string op.symbol), ("operand", operand.toJson)] l

def listToJson : List Expr → List Json
  | [] => []
  | e :: rest => e.toJson :: listToJson rest

/-- The properties of an object literal as JSON. -/
def propertiesToJson : List (String × Expr) → List Json
  | [] => []
  | (key, e) :: rest => .object [("key", .string key), ("value", e.toJson)] :: propertiesToJson rest

end

/-- Reads an expression whose nesting fits the budget. -/
def read? : Nat → Json → Option Expr
  | 0, _ => none
  | budget + 1, j => do
    let (kind, location, record) ← Json.located? kinds j
    match kind with
    | "String" =>
      match ← record.fields? ["value"] with
      | [value] => return .string (← Json.required Json.string? value) location
      | _ => none
    | "Number" =>
      match ← record.fields? ["value"] with
      | [value] => return .number (← Json.required Json.number? value) location
      | _ => none
    | "Boolean" =>
      match ← record.fields? ["value"] with
      | [value] => return .boolean (← Json.required Json.bool? value) location
      | _ => none
    | "Null" => return .null location
    | "Array" =>
      match ← record.fields? ["elements"] with
      | [elements] =>
        return .array (← Json.withDefault (Json.listOf? (read? budget)) [] elements) location
      | _ => none
    | "Object" =>
      let property? (j : Json) : Option (String × Expr) := do
        match ← j.fields? ["key", "value"] with
        | [key, value] =>
          return (← Json.required Json.string? key, ← Json.required (read? budget) value)
        | _ => none
      match ← record.fields? ["properties"] with
      | [properties] =>
        return .object (← Json.withDefault (Json.listOf? property?) [] properties) location
      | _ => none
    | "ParameterReference" =>
      match ← record.fields? ["name"] with
      | [name] => return .parameter (← Json.required Json.string? name) location
      | _ => none
    | "VariableReference" =>
      match ← record.fields? ["name"] with
      | [name] => return .variable (← Json.required Json.string? name) location
      | _ => none
    | "SystemPropertyReference" =>
      match ← record.fields? ["name"] with
      | [name] => return .system (← Json.required Json.string? name) location
      | _ => none
    | "PropertyChain" =>
      match ← record.fields? ["scope", "properties"] with
      | [root, properties] =>
        return .chain (← Json.required Json.string? root)
          (← Json.withDefault (Json.listOf? Json.string?) [] properties) location
      | _ => none
    | "Binary" =>
      match ← record.fields? ["op", "left", "right"] with
      | [op, left, right] =>
        return .binary (← Json.required BinaryOp.ofJson? op) (← Json.required (read? budget) left)
          (← Json.required (read? budget) right) location
      | _ => none
    | "Unary" =>
      match ← record.fields? ["op", "operand"] with
      | [op, operand] =>
        return .unary (← Json.required UnaryOp.ofJson? op)
          (← Json.required (read? budget) operand) location
      | _ => none
    | _ => none

def ofJson? (j : Json) : Option Expr := read? j.depth j

end Expr

namespace Declaration

def fieldNames : List String := ["name", "value", "location"]

def toFields (d : Declaration) : List (String × Json) :=
  [("name", .string d.name), ("value", d.value.toJson), ("location", d.location.toJson)]

def ofJson? (j : Json) : Option Declaration := do
  match ← j.fields? fieldNames with
  | [name, value, location] =>
    return {
      name := ← Json.required Json.string? name
      value := ← Json.required Expr.ofJson? value
      location := ← Location.ofField? location }
  | _ => none

end Declaration

end Cuesheet
