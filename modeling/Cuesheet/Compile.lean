import Cuesheet.Engine.Check
import Cuesheet.Engine.Numbering
import Cuesheet.Lowering.Draft

/-!
# Compiling a program

A program is drafted, its entities get ids, the data flow of every list of operations is checked,
and the finished configuration is checked for its shape.
-/

set_option autoImplicit false

namespace Cuesheet

/-- The version of the compiler. -/
def compilerVersion : String := "0.1.0"

/-- Counts about a compilation. -/
structure Metadata where
  compilerVersion : String
  timelineCount : Nat
  actionCount : Nat
  operationCount : Nat
  constantCount : Nat
  deriving Repr, DecidableEq

namespace Metadata

def toJson (m : Metadata) : Json :=
  .object [("compilerVersion", .string m.compilerVersion), ("timelineCount", .int m.timelineCount),
    ("actionCount", .int m.actionCount), ("operationCount", .int m.operationCount),
    ("constantCount", .int m.constantCount)]

def ofJson? (j : Json) : Option Metadata := do
  match ← j.fields?
      ["compilerVersion", "timelineCount", "actionCount", "operationCount", "constantCount"] with
  | [compilerVersion, timelineCount, actionCount, operationCount, constantCount] =>
    return {
      compilerVersion := ← Json.required Json.string? compilerVersion
      timelineCount := ← Json.required Json.count? timelineCount
      actionCount := ← Json.required Json.count? actionCount
      operationCount := ← Json.required Json.count? operationCount
      constantCount := ← Json.required Json.count? constantCount }
  | _ => none

end Metadata

/-- The result of a compilation. -/
structure Compiled where
  config : Engine.Config String
  sourceMap : Engine.SourceMap
  metadata : Metadata

namespace Compiled

def toJson (c : Compiled) : Json :=
  .object [("config", c.config.toJson), ("sourceMap", c.sourceMap.toJson),
    ("metadata", c.metadata.toJson)]

/-- The result with other ids. -/
def mapIds (f : String → String) (c : Compiled) : Compiled :=
  { c with config := c.config.map f, sourceMap := c.sourceMap.mapIds f }

end Compiled

/-! ## Data flow of a configuration -/

namespace Engine

/-- Checks a list of operations from what is available before it; gives what is available behind. -/
def checkOperations (map : SourceMap) (owner : String) (operations : List (Operation String))
    (available : Dataflow.Available) : Lowered Dataflow.Available :=
  let outcome := Dataflow.run (operations.map (·.name)) available
  match outcome.failure with
  | none => .ok outcome.available
  | some (index, missing) =>
    let location := (operations[index]?.bind fun o => map.get? o.id).getD .unknown
    .error ⟨.missingData owner missing, location⟩

/-- Checks both halves of an action. The end starts with what the start has left, or with
nothing. -/
def checkHalves (map : SourceMap) (seedEnd : Bool) (owner : String)
    (start finish : List (Operation String)) : Lowered Unit := do
  let available ← checkOperations map owner start []
  let _ ← checkOperations map owner finish (if seedEnd then available else [])

/-- The lists of a configuration that share data: an owner with the operations that start and end
it, in the order in which they are checked. -/
def Config.halves (c : Config String) :
    List (String × List (Operation String) × List (Operation String)) :=
  ((c.initActions ++ c.actions).map fun a => (a.name, a.start, a.finish)) ++
    (c.eventActions.map fun a => (a.name, a.start, [])) ++
    c.timelines.flatMap fun t => t.actions.map fun a => (a.name, a.start, a.finish)

/-- Checks lists one after another, up to the first that lacks data. -/
def checkAll (map : SourceMap) (seedEnd : Bool) :
    List (String × List (Operation String) × List (Operation String)) → Lowered Unit
  | [] => .ok ()
  | (owner, start, finish) :: rest => do
    checkHalves map seedEnd owner start finish
    checkAll map seedEnd rest

end Engine

/-! ## Compiling -/

/-- Why a compilation fails. -/
inductive CompileError where
  | lowering (error : LowerError)
  | shape (problems : List Engine.Problem)

namespace CompileError

def message : CompileError → String
  | lowering error => error.diagnostic.message
  | shape problems =>
    "Configuration failed structural checks: " ++ "; ".intercalate (problems.map (·.text))

end CompileError

namespace Program

/-- Lowers a program to a numbered configuration whose data flow is in order. -/
def lower (p : Program) (documents : Documents) (assets : Assets) (settings : Settings)
    (supply : Engine.IdSupply) : Lowered Compiled := do
  let draft ← p.draft documents assets settings
  let (config, sourceMap) := draft.config.withIds supply settings.configId
  Engine.checkAll sourceMap settings.seedEnd config.halves
  return {
    config
    sourceMap
    metadata := {
      compilerVersion
      timelineCount := config.timelines.length
      actionCount := config.actions.length
      operationCount := config.operations.length
      constantCount := draft.constants.bindings.length } }

/-- Compiles a program. -/
def compile (p : Program) (documents : Documents) (assets : Assets) (settings : Settings)
    (supply : Engine.IdSupply) : Except CompileError Compiled :=
  match p.lower documents assets settings supply with
  | .error e => .error (.lowering e)
  | .ok compiled =>
    match Engine.Check.config compiled.config compiled.sourceMap with
    | [] => .ok compiled
    | problems => .error (.shape problems)

end Program

end Cuesheet
