import Cuesheet.CommandLine.Command
import Cuesheet.Compile
import Cuesheet.Engine.Schema
import Cuesheet.File.Store
import Cuesheet.File.Text
import Cuesheet.Operation.Audit
import Cuesheet.Operation.Manual

/-!
# Running a command

A command reads and writes files through a `FileStore` and ends with an exit code and the texts for
its two output streams. Files are loaded one after another, and the first error ends the run.
-/

set_option autoImplicit false

namespace Cuesheet.CommandLine

/-- How a run ends. -/
structure Outcome where
  exit : Nat
  stdout : String
  stderr : String
  deriving Repr, DecidableEq

namespace Outcome

/-- A run that succeeds. -/
def success (stdout : String) : Outcome := ⟨0, stdout, ""⟩

/-- A run that fails. -/
def failure (stderr : String) : Outcome := ⟨1, "", stderr⟩

end Outcome

/-- Why a compilation from files fails. -/
inductive Failure where
  /-- A document cannot be loaded, or a file cannot be written. -/
  | document (path reason : String)
  /-- The assets or the settings cannot be loaded. -/
  | load (error : LoadError)
  | compile (error : CompileError)

namespace Failure

def message : Failure → String
  | document path reason => "Could not load '" ++ path ++ "': " ++ reason
  | load error => error.message
  | compile error => error.message

/-- The lines that show a failure. -/
def lines : Failure → List String
  | compile (.lowering error) => ["Error: " ++ error.diagnostic.text]
  | compile (.shape problems) =>
    "Error: configuration failed structural checks" :: problems.map fun p => "  " ++ p.text
  | other => ["Error: " ++ other.message]

def toJson : Failure → Json
  | compile (.lowering error) => .object [("error", error.diagnostic.toJson)]
  | compile (.shape problems) =>
    .object [("error", .object [("code", .string "TypeError"),
      ("detail", .array (problems.map (·.toJson)))])]
  | other =>
    .object [("error", .object [("code", .string "CompileError"),
      ("detail", .object [("message", .string other.message)])])]

def text (jsonErrors : Bool) (failure : Failure) : String :=
  if jsonErrors then failure.toJson.pretty ++ "\n"
  else String.join (failure.lines.map (· ++ "\n"))

end Failure

section

variable {m : Type → Type} [Monad m] (store : FileStore m)

/-- Loads the document at a path. -/
def loadFile {α : Type} (read? : String → Option α) (path : String) : ExceptT LoadError m α := do
  match ← store.read path with
  | .error e => throw (.access e.message)
  | .ok text =>
    match read? text with
    | some document => return document
    | none => throw .form

/-- Loads a document of the program tree. -/
def loadDocument {α : Type} (read? : String → Option α) (path : String) : ExceptT Failure m α :=
  ExceptT.adapt (fun e => Failure.document path e.message) (loadFile store read? path)

/-- Loads libraries one after another. -/
def loadLibraries : List (String × String) → Documents → ExceptT Failure m Documents
  | [], documents => return documents
  | (path, file) :: rest, documents => do
    let library ← loadDocument store Library.ofText? file
    loadLibraries rest (documents.insert path library)

/-- Loads the assets, if a file is named. -/
def loadAssets : Option String → ExceptT Failure m Assets
  | none => return .empty
  | some path => ExceptT.adapt Failure.load (loadFile store Assets.ofText? path)

/-- Loads the settings, if a file is named and there is one. -/
def loadSettings : Option String → ExceptT Failure m Settings
  | none => return .default
  | some path => do
    if ← store.isThere path then
      match ← store.read path with
      | .error e => throw (.load (.access e.message))
      | .ok text => liftExcept (Settings.load (some text))
    else liftExcept (Settings.load none)
where
  /-- Settings or the failure to load them. -/
  liftExcept (loaded : Except LoadError Settings) : ExceptT Failure m Settings :=
    match loaded with
    | .ok settings => return settings
    | .error e => throw (.load e)

/-- Writes a value to a file. -/
def writeFile (path : String) (value : Json) : ExceptT Failure m Unit := do
  match ← store.write path value.pretty with
  | .ok () => return
  | .error e => throw (.document path e.message)

/-- Loads everything that a compilation needs, and compiles. -/
def compileFiles (random : Engine.IdSupply) (files : CompileFiles) :
    ExceptT Failure m Compiled := do
  let program ← loadDocument store Program.ofText? files.program
  let documents ← loadLibraries store files.libraries .empty
  let assets ← loadAssets store files.assets
  let settings ← loadSettings store files.settings
  let supply :=
    match settings.idStrategy with
    | .sequential => Engine.IdSupply.sequential
    | .uuid => random
  match program.compile documents assets settings supply with
  | .ok compiled => return compiled
  | .error e => throw (.compile e)

/-- Compiles and writes the results: first the configuration, then the source map. -/
def runCompile (random : Engine.IdSupply) (files : CompileFiles) : m Outcome := do
  match ← (compileFiles store random files).run with
  | .error failure => return .failure (failure.text files.jsonErrors)
  | .ok compiled =>
    let written : ExceptT Failure m Unit :=
      match files.out with
      | some path => writeFile store path compiled.config.toJson
      | none => return
    match ← written.run with
    | .error failure => return .failure (failure.text files.jsonErrors)
    | .ok () =>
      let stdout := if files.out.isSome then "" else compiled.config.toJson.pretty ++ "\n"
      let mapped : ExceptT Failure m Unit :=
        match files.sourceMap with
        | some path => writeFile store path compiled.sourceMap.toJson
        | none => return
      match ← mapped.run with
      | .error failure => return ⟨1, stdout, failure.text files.jsonErrors⟩
      | .ok () => return .success stdout

end

/-- Shows the page of one operation, or all of them. -/
def runOperations : Option String → Outcome
  | none => .success (Manual.reference ++ "\n")
  | some name =>
    match Manual.page? name with
    | some page => .success (page ++ "\n")
    | none =>
      let hint :=
        match Catalogue.suggest name with
        | [] => ""
        | names => "Did you mean: " ++ ", ".intercalate names ++ "?\n"
      .failure ("Error: unknown operation '" ++ name ++ "'\n" ++ hint)

/-- Audits the catalogue of operations. -/
def runCheckRegistry : Outcome :=
  match Catalogue.audit Catalogue.operations with
  | [] => .success "Registry OK\n"
  | problems =>
    .failure (String.join (problems.map fun p => "  " ++ p ++ "\n") ++
      toString problems.length ++ " problem(s) found\n")

/-- Runs a command. Ids that are to be random are taken from `random`. -/
def Command.run {m : Type → Type} [Monad m] (store : FileStore m) (random : Engine.IdSupply) :
    Command → m Outcome
  | .compile files => runCompile store random files
  | .operations name => return runOperations name
  | .checkRegistry => return runCheckRegistry
  | .schema => return .success (Engine.Schema.config.pretty ++ "\n")

/-- Runs what the arguments ask for. -/
def run {m : Type → Type} [Monad m] (store : FileStore m) (random : Engine.IdSupply)
    (arguments : List String) : m Outcome :=
  match Command.ofArguments arguments with
  | .ok command => command.run store random
  | .error .version => return .success (programName ++ " " ++ compilerVersion ++ "\n")
  | .error .help => return .success usageText
  | .error .usage => return ⟨2, "", usageText⟩

end Cuesheet.CommandLine
