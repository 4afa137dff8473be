import Cuesheet.CommandLine.Arguments

/-!
# Commands

The commands of the command line and the arguments they take.
-/

set_option autoImplicit false

namespace Cuesheet.CommandLine

/-- The name of the program. -/
def programName : String := "eligian-cli"

/-- The files of a compilation. -/
structure CompileFiles where
  program : String
  /-- The path that imports use and the file, for every library. -/
  libraries : List (String × String)
  assets : Option String
  settings : Option String
  /-- Where the configuration goes, if not to the standard output. -/
  out : Option String
  sourceMap : Option String
  /-- Whether errors are shown as JSON. -/
  jsonErrors : Bool
  deriving Repr, DecidableEq

/-- What the command line can be asked to do. -/
inductive Command where
  | compile (files : CompileFiles)
  /-- Shows the page of one operation, or all of them. -/
  | operations (name : Option String)
  /-- Audits the catalogue of operations. -/
  | checkRegistry
  /-- Shows the schema of configurations. -/
  | schema
  deriving Repr, DecidableEq

/-- The path and the file of a library argument; neither may be empty. -/
def libraryArgument? (text : String) : Option (String × String) :=
  match splitEquals text.toList with
  | (path, some file) =>
    if path.isEmpty || file.isEmpty then none
    else some (String.ofList path, String.ofList file)
  | _ => none

namespace CompileFiles

/-- An option with the path of a file. -/
def fileOption (name : String) : OptionRule := ⟨name, true, false, (· ≠ "")⟩

/-- The arguments of a compilation. -/
def grammar : Grammar :=
  { options := [
      ⟨"library", true, true, fun text => (libraryArgument? text).isSome⟩,
      fileOption "assets", fileOption "settings", fileOption "out", fileOption "source-map",
      ⟨"json-errors", false, false, fun _ => false⟩]
    words := 1
    acceptsWord := (· ≠ "") }

/-- The files that the arguments name. -/
def ofGiven (given : Given) : Except Stop CompileFiles :=
  match given.words with
  | [program] =>
    .ok {
      program
      libraries := (given.values "library").filterMap libraryArgument?
      assets := given.value? "assets"
      settings := given.value? "settings"
      out := given.value? "out"
      sourceMap := given.value? "source-map"
      jsonErrors := given.has "json-errors" }
  | _ => .error .usage

end CompileFiles

namespace Command

/-- The names of the commands. -/
def names : List String := ["compile", "operations", "check-registry", "schema", "help"]

/-- The arguments of a command that takes none. -/
def noArguments : Grammar := ⟨[], 0, fun _ => false⟩

/-- The command called `name` with its arguments. -/
def ofName (name : String) (arguments : List String) : Except Stop Command :=
  match name with
  | "compile" => do
    return .compile (← CompileFiles.ofGiven (← CompileFiles.grammar.read arguments))
  | "operations" => do
    let given ← Grammar.read ⟨[], 1, fun _ => true⟩ arguments
    return .operations given.words.head?
  | "check-registry" => do
    let _ ← noArguments.read arguments
    return .checkRegistry
  | "schema" => do
    let _ ← noArguments.read arguments
    return .schema
  | "help" =>
    match arguments with
    | [] => .error .help
    | [topic] => .error (if topic ∈ names then .help else .usage)
    | _ => .error .usage
  | _ => .error .usage

/-- Checks a group of one-letter options in front of the command. -/
def checkLetters : List Char → Except Stop Unit
  | [] => .ok ()
  | 'v' :: rest => checkLetters rest
  | 'V' :: _ => .error .version
  | 'h' :: _ => .error .help
  | _ => .error .usage

/-- The command that the arguments ask for. -/
def ofArguments : List String → Except Stop Command
  | [] => .error .usage
  | argument :: rest =>
    match Token.ofArgument argument with
    | .word name => ofName name rest
    | .short letters => do
      checkLetters letters
      ofArguments rest
    | .long "verbose" none => ofArguments rest
    | .long "version" none => .error .version
    | .long "help" none => .error .help
    | _ => .error .usage

end Command

/-- The text about how to use the program. -/
def usageText : String :=
  "Usage: " ++ programName ++ " [-v] <COMMAND>\n\n" ++
  "Commands:\n" ++
  "  compile <PROGRAM> [--library <PATH>=<FILE>]... [--assets <FILE>] [--settings <FILE>]\n" ++
  "          [--out <FILE>] [--source-map <FILE>] [--json-errors]\n" ++
  "  operations [NAME]\n" ++
  "  check-registry\n" ++
  "  schema\n"

end Cuesheet.CommandLine
