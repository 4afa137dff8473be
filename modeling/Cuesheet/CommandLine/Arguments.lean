import Cuesheet.Data.Dict

/-!
# Arguments of a command

An argument is an option with two hyphens, a group of one-letter options with one, or a word. An
option that takes a value takes it from behind an equals sign or from the next argument, which must
not look like an option. Behind `--` everything is a word. A `Grammar` says which options a command
has and which words it takes.
-/

set_option autoImplicit false

namespace Cuesheet.CommandLine

/-- Why the arguments do not lead to a command. -/
inductive Stop where
  /-- They are wrong. -/
  | usage
  /-- They ask for help. -/
  | help
  /-- They ask for the version. -/
  | version
  deriving Repr, DecidableEq

/-- What an argument looks like. -/
inductive Token where
  /-- `--` -/
  | rest
  /-- `--name` or `--name=value` -/
  | long (name : String) (value : Option String)
  /-- `-abc` -/
  | short (letters : List Char)
  | word (text : String)
  deriving Repr, DecidableEq

/-- The parts of a text before and behind its first equals sign. -/
def splitEquals (text : List Char) : List Char × Option (List Char) :=
  match text.dropWhile (· != '=') with
  | [] => (text, none)
  | _ :: value => (text.takeWhile (· != '='), some value)

/-- What an argument looks like. -/
def Token.ofArgument (argument : String) : Token :=
  match argument.toList with
  | ['-', '-'] => .rest
  | '-' :: '-' :: text =>
    let (name, value) := splitEquals text
    .long (String.ofList name) (value.map String.ofList)
  | '-' :: c :: letters => .short (c :: letters)
  | _ => .word argument

/-- An option of a command. -/
structure OptionRule where
  name : String
  takesValue : Bool
  isRepeatable : Bool
  /-- The values that it takes. -/
  accepts : String → Bool

/-- The arguments that a command takes, apart from those that every command takes. -/
structure Grammar where
  options : List OptionRule
  /-- How many words there may be. -/
  words : Nat
  acceptsWord : String → Bool

/-- The arguments that were given, in order. An option without a value has an empty one. -/
structure Given where
  options : List (String × String)
  words : List String

namespace Given

def values (given : Given) (name : String) : List String :=
  given.options.filterMap fun entry => if entry.1 = name then some entry.2 else none

/-- The value of the option `name`. -/
def value? (given : Given) (name : String) : Option String := (given.values name).head?

/-- Whether the option `name` was given. -/
def has (given : Given) (name : String) : Bool := (given.value? name).isSome

end Given

namespace Grammar

/-- Adds an option with its value. -/
def addOption (rule : OptionRule) (value : String) (given : Given) : Except Stop Given :=
  if given.has rule.name && !rule.isRepeatable then .error .usage
  else if rule.takesValue && !rule.accepts value then .error .usage
  else .ok { given with options := given.options ++ [(rule.name, value)] }

/-- Adds a word. -/
def addWord (grammar : Grammar) (word : String) (given : Given) : Except Stop Given :=
  if given.words.length < grammar.words && grammar.acceptsWord word then
    .ok { given with words := given.words ++ [word] }
  else .error .usage

/-- Adds words only. -/
def addWords (grammar : Grammar) : List String → Given → Except Stop Given
  | [], given => .ok given
  | word :: rest, given => do grammar.addWords rest (← grammar.addWord word given)

/-- Checks a group of one-letter options: `-v` and `-h` are all there are. -/
def checkLetters : List Char → Except Stop Unit
  | [] => .ok ()
  | 'v' :: rest => checkLetters rest
  | 'h' :: _ => .error .help
  | _ => .error .usage

/-- Reads arguments one after another. -/
def scan (grammar : Grammar) : List String → Given → Except Stop Given
  | [], given => .ok given
  | argument :: rest, given =>
    match Token.ofArgument argument with
    | .rest => grammar.addWords rest given
    | .word word => do grammar.scan rest (← grammar.addWord word given)
    | .short letters => do
      checkLetters letters
      grammar.scan rest given
    | .long "verbose" none => grammar.scan rest given
    | .long "help" none => .error .help
    | .long name value =>
      match grammar.options.find? (·.name = name), value with
      | none, _ => .error .usage
      | some rule, some value =>
        if rule.takesValue then do grammar.scan rest (← addOption rule value given)
        else .error .usage
      | some rule, none =>
        if rule.takesValue then
          match rest with
          | [] => .error .usage
          | next :: rest =>
            match Token.ofArgument next with
            | .word value => do grammar.scan rest (← addOption rule value given)
            | _ => .error .usage
        else do grammar.scan rest (← addOption rule "" given)

/-- Reads the arguments of a command. -/
def read (grammar : Grammar) (arguments : List String) : Except Stop Given :=
  grammar.scan arguments ⟨[], []⟩

end Grammar

end Cuesheet.CommandLine
