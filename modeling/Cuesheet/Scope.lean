import Cuesheet.Constants

/-!
# Lexical scopes

A scope is plain data: entering a block or a loop makes a new scope, and what is declared in the
new one never reaches the old one.

`@name` looks for the item of the innermost loop, then for what the scope has declared, then for
the globals of the program. A bare name looks for loop items, then for parameters. Only the item
of the innermost loop can be reached; a name that belongs to an outer loop is known and refused.
-/

set_option autoImplicit false

namespace Cuesheet

/-- The names a program declares at its top: folded constants, and those set at run time. -/
structure Globals where
  constants : Constants
  runtime : List String
  deriving Inhabited

/-- How an action receives its arguments. -/
inductive ArgumentStyle where
  /-- By the names of the parameters. -/
  | named
  /-- By position, as the arguments of an event. -/
  | positional
  deriving Repr, DecidableEq

/-- What a bare name or a system name refers to. -/
inductive Referent where
  | parameter (index : Nat) (style : ArgumentStyle)
  | loopItem
  | outerLoopItem
  | staggerItem (value : Json)

/-- The names visible at one place of a program. -/
structure Scope where
  globals : Globals
  inAction : Bool
  parameters : List String
  style : ArgumentStyle
  /-- The item names of the loops around this place, innermost first. -/
  loops : List String
  staggerItem : Option Json
  locals : Constants
  runtimeLocals : List String

/-- Adds a name at the end unless it is there. -/
def addName (names : List String) (name : String) : List String :=
  if name ∈ names then names else names ++ [name]

namespace Scope

/-- The scope of operations that stand directly on a timeline. -/
def top (globals : Globals) : Scope :=
  { globals, inAction := false, parameters := [], style := .named, loops := []
    staggerItem := none, locals := .empty, runtimeLocals := [] }

/-- The scope of an action body. -/
def action (globals : Globals) (parameters : List String) (style : ArgumentStyle) : Scope :=
  { top globals with inAction := true, parameters, style }

/-- The scope of a nested block. -/
def enterBlock (scope : Scope) : Scope := scope

/-- The scope of a loop body. -/
def enterLoop (scope : Scope) (item : String) : Scope := { scope with loops := item :: scope.loops }

/-- The scope of one element of a stagger. -/
def withStaggerItem (scope : Scope) (item : Json) : Scope := { scope with staggerItem := some item }

/-- The item name of the innermost loop. -/
def loopItem? (scope : Scope) : Option String := scope.loops.head?

/-- Whether the name was declared here with an initialiser that did not fold. -/
def isRuntimeLocal (scope : Scope) (name : String) : Bool := name ∈ scope.runtimeLocals

/-- Whether the name is a global that is set at run time. -/
def isRuntimeGlobal (scope : Scope) (name : String) : Bool := name ∈ scope.globals.runtime

/-- The value of `@name`, if it is constant here. The item of the innermost loop and run-time
locals hide constants. -/
def constant? (scope : Scope) (name : String) : Option Json :=
  if scope.loopItem? = some name ∨ scope.isRuntimeLocal name then none
  else (scope.locals.constant? name).or (scope.globals.constants.constant? name)

/-- The value of an expression, if it has one here. -/
def fold? (scope : Scope) (e : Expr) : Option Json := e.fold? scope.constant?

/-- The scope behind a declaration. The initialiser sees the scope before it; the name then holds
a folded value or is a run-time local, and whatever it was here before is gone. -/
def declare (scope : Scope) (d : Declaration) : Scope :=
  let locals := scope.locals.remove d.name
  let runtimeLocals := scope.runtimeLocals.filter (· ≠ d.name)
  match scope.fold? d.value with
  | some value => { scope with locals := locals.bind d value, runtimeLocals }
  | none => { scope with locals, runtimeLocals := addName runtimeLocals d.name }

/-- What a bare name refers to: loop items hide parameters. -/
def identifier? (scope : Scope) (name : String) : Option Referent :=
  if scope.loopItem? = some name then some .loopItem
  else if name ∈ scope.loops then some .outerLoopItem
  else do
    let index ← scope.parameters.idxOf? name
    if scope.inAction then some (.parameter index scope.style) else none

/-- What `@@name` refers to when it names the element of a stagger or the item of a loop. -/
def systemProperty? (scope : Scope) (name : String) : Option Referent :=
  match scope.staggerItem with
  | some item =>
    if name = "item" ∨ name = "currentItem" then some (.staggerItem item)
    else if scope.loopItem? = some name then some .loopItem
    else none
  | none => if scope.loopItem? = some name then some .loopItem else none

end Scope

end Cuesheet
