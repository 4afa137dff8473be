import Cuesheet.Library.Documents

/-!
# Callable actions

Which actions can be called from which document. A program can call the actions that it imports
and its own; a library can call what it imports and its own. Imports reach through libraries, may
rename, and may form cycles: a library that is being resolved offers the ones that ask for it
nothing but its own actions.

The actions of a library are worked out once, in the order in which libraries are finished.
-/

set_option autoImplicit false

namespace Cuesheet

/-- The document that defines an action. -/
inductive Origin where
  | program
  /-- The library at a normalised path. -/
  | library (path : String)
  deriving Repr, DecidableEq

/-- An action as a caller sees it. Document and position say which definition it is. -/
structure Callable where
  action : Action
  origin : Origin
  index : Nat
  /-- The name given by an import, if it gave one. -/
  as : Option String

namespace Callable

def name (c : Callable) : String := c.as.getD c.action.name

/-- The name of the definition, with its library in front. -/
def qualifiedName (c : Callable) : String :=
  match c.origin with
  | .program => c.action.name
  | .library path => path ++ "#" ++ c.action.name

/-- Whether two callables are the same definition. -/
def sameDefinition (a b : Callable) : Bool := a.origin = b.origin && a.index == b.index

/-- The action under a new name; without one it keeps the name it has. -/
def renamed (c : Callable) (as : Option String) : Callable := { c with as := as.or c.as }

/-- The definitions of a document, from position `index` on. -/
def definitionsFrom (origin : Origin) (index : Nat) : List Action → List Callable
  | [] => []
  | a :: rest => ⟨a, origin, index, none⟩ :: definitionsFrom origin (index + 1) rest

/-- The definitions of a document. -/
def definitions (origin : Origin) (actions : List Action) : List Callable :=
  definitionsFrom origin 0 actions

/-- The last action called `name`: later ones hide earlier ones. -/
def find? (name : String) (callables : List Callable) : Option Callable :=
  callables.reverse.find? (·.name = name)

end Callable

namespace Library

/-- The definitions of the library at `path`. -/
def definitions (library : Library) (path : String) : List Callable :=
  Callable.definitions (.library path) library.actions

end Library

/-! ## Resolving imports -/

/-- The callables of each library that is finished, in the order in which they were. -/
abbrev Finished := Dict (List Callable)

namespace Imports

/-- The actions that one import brings in from those that its library offers. A name that is not
offered brings in nothing. -/
def select (wanted : List ActionImport) (offered : List Callable) : List Callable :=
  wanted.filterMap fun entry => (Callable.find? entry.action offered).map (·.renamed entry.as)

/-- Everything that a list of imports brings in, one import after another. `offer` gives the
actions of a library and carries on what is finished. -/
def collect (offer : Finished → String → List Callable × Finished) (importer : String) :
    List LibraryImport → Finished → List Callable × Finished
  | [], finished => ([], finished)
  | i :: rest, finished =>
    let (offered, finished) := offer finished (Path.resolve importer i.path)
    let (others, finished) := collect offer importer rest finished
    (select i.actions offered ++ others, finished)

/-- The actions that can be called inside the library at `path`: what it imports, then its own.
`chain` holds the libraries that are being resolved, and `depth` bounds how many more there can be:
when none is left, every library is on the chain. -/
def offered (documents : Documents) :
    (depth : Nat) → (chain : List String) → Finished → (path : String) → List Callable × Finished
  | depth, chain, finished, path =>
    match Dict.get? finished path with
    | some done => (done, finished)
    | none =>
      match documents.resolve? path with
      | none => ([], finished)
      | some library =>
        if path ∈ chain then (library.definitions path, finished)
        else
          match depth with
          | 0 => (library.definitions path, finished)
          | depth + 1 =>
            let (imported, finished) :=
              collect (offered documents depth (path :: chain)) path library.imports finished
            let callables := imported ++ library.definitions path
            (callables, Dict.set finished path callables)

/-- Keeps the first action of every name. -/
def distinct : List Callable → List Callable → List Callable
  | kept, [] => kept
  | kept, c :: rest =>
    if kept.any (·.name = c.name) then distinct kept rest else distinct (kept ++ [c]) rest

/-- What a program imports, each name once, and the libraries that were finished on the way. -/
def ofProgram (documents : Documents) (program : Program) : List Callable × Finished :=
  let (imported, finished) :=
    collect (offered documents documents.size []) "" program.libraryImports []
  (distinct [] imported, finished)

end Imports

/-- Every action that a compilation can reach. -/
structure Callables where
  /-- Callable from the program: imports, then its own actions. -/
  program : List Callable
  /-- Callable from inside each library. -/
  libraries : Finished

namespace Callables

/-- The callables of a program. Its own actions hide imports of the same name. -/
def ofProgram (documents : Documents) (program : Program) : Callables :=
  let (imported, finished) := Imports.ofProgram documents program
  let own := Callable.definitions .program program.actions
  { program := imported.filter (fun c => !own.any (·.name = c.name)) ++ own
    libraries := finished }

/-- The actions that code of the given document can call. -/
def visibleFrom (callables : Callables) : Origin → List Callable
  | .program => callables.program
  | .library path => (Dict.get? callables.libraries path).getD []

/-- The action that a call written in the given document means. -/
def find? (callables : Callables) (origin : Origin) (name : String) : Option Callable :=
  Callable.find? name (callables.visibleFrom origin)

/-- The definition among the program's callables that a callable stands for, if there is one. -/
def inProgram? (callables : Callables) (c : Callable) : Option Callable :=
  callables.program.find? (·.sameDefinition c)

/-- The name under which the configuration holds the action that a call in the given document
means. A library's action that the program does not see goes by its qualified name. -/
def emittedName (callables : Callables) (origin : Origin) (found : Callable) : String :=
  match origin with
  | .program => found.name
  | .library _ =>
    match callables.inProgram? found with
    | some visible => visible.name
    | none => found.qualifiedName

end Callables

/-! ## Helpers

A helper is an action of a library that the program does not see and that some library's body
calls. Helpers are part of the configuration too, under their qualified names, in the order in
which they are first called. -/

namespace Stmt

mutual

/-- The names that the statement calls, in order. -/
def calledNames : Stmt → List String
  | .call c => [c.name]
  | .branch _ thenBody elseBody _ => calledNamesIn thenBody ++ calledNamesInElse elseBody
  | .loop _ _ body _ => calledNamesIn body
  | .declaration _ | .breakLoop _ | .continueLoop _ => []

/-- The names that the statements call, in order. -/
def calledNamesIn : List Stmt → List String
  | [] => []
  | s :: rest => calledNames s ++ calledNamesIn rest

/-- The names that a second branch calls, in order. -/
def calledNamesInElse : Option (List Stmt) → List String
  | none => []
  | some body => calledNamesIn body

end

end Stmt

namespace Callables

/-- The helpers that the body of an action calls, in order. -/
def helpersCalledBy (callables : Callables) (c : Callable) : List Callable :=
  match c.origin with
  | .program => []
  | .library _ =>
    let names := Stmt.calledNamesIn c.action.body.start ++ Stmt.calledNamesIn c.action.body.finish
    names.filterMap fun name =>
      (callables.find? c.origin name).filter fun found => (callables.inProgram? found).isNone

/-- Puts callables at the end of a queue, except those whose qualified names are there. -/
def enqueue (queue : List Callable) (found : List Callable) : List Callable :=
  found.foldl (fun queue c =>
    if queue.any (·.qualifiedName = c.qualifiedName) then queue else queue ++ [c]) queue

/-- Works through a queue of helpers from position `next` on; what they call joins the queue. -/
def reachFrom (callables : Callables) : (steps : Nat) → (next : Nat) → List Callable → List Callable
  | 0, _, queue => queue
  | steps + 1, next, queue =>
    match queue[next]? with
    | none => queue
    | some c => reachFrom callables steps (next + 1) (enqueue queue (callables.helpersCalledBy c))

/-- How many callables the libraries have in all. No more helpers than that can have different
names. -/
def helperBound (callables : Callables) : Nat :=
  (callables.libraries.flatMap (·.2)).length

/-- All helpers, in the order in which they are first called. -/
def helpers (callables : Callables) : List Callable :=
  let first := callables.program.foldl
    (fun queue c => enqueue queue (callables.helpersCalledBy c)) []
  reachFrom callables callables.helperBound 0 first

end Callables

end Cuesheet
