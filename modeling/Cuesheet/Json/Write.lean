import Cuesheet.Json.Basic
import Cuesheet.Number.Layout

/-!
# Writing JSON text

Two forms: compact, without any space, and pretty, indented by two with empty arrays and objects
closed at once. Both are functions into lists of characters, so that statements about the text can
follow the structure of the value.
-/

set_option autoImplicit false

namespace Cuesheet.Json

/-- A hexadecimal digit in lower case. -/
def hexDigit (n : Nat) : Char := Nat.digitChar (n % 16)

/-- A character inside a string: quotes, backslashes and control characters are escaped, every
other character stands for itself. -/
def escapeChar (c : Char) : List Char :=
  if c = '"' then ['\\', '"']
  else if c = '\\' then ['\\', '\\']
  else if c = '\n' then ['\\', 'n']
  else if c = '\r' then ['\\', 'r']
  else if c = '\t' then ['\\', 't']
  else if c.toNat = 8 then ['\\', 'b']
  else if c.toNat = 12 then ['\\', 'f']
  else if c.toNat < 32 then ['\\', 'u', '0', '0', hexDigit (c.toNat / 16), hexDigit c.toNat]
  else [c]

/-- A string literal. -/
def quoted (s : String) : List Char := '"' :: (s.toList.flatMap escapeChar ++ ['"'])

/-- A whole number. -/
def wholeText (n : Int) : List Char :=
  match n with
  | .ofNat k => Nat.toDigits 10 k
  | .negSucc k => '-' :: Nat.toDigits 10 (k + 1)

/-- A float; what is not finite has no literal and is written as null. -/
def floatText (x : Float) : List Char :=
  if x.isFinite then FloatLayout.value.write x else "null".toList

mutual

/-- Compact text. -/
def compactChars : Json → List Char
  | .null => "null".toList
  | .bool true => "true".toList
  | .bool false => "false".toList
  | .int n => wholeText n
  | .float x => floatText x
  | .string s => quoted s
  | .array items => '[' :: (compactItems items ++ [']'])
  | .object entries => '\x7b' :: (compactEntries entries ++ ['\x7d'])

/-- Items with commas between them. -/
def compactItems : List Json → List Char
  | [] => []
  | [j] => compactChars j
  | j :: rest => compactChars j ++ ',' :: compactItems rest

/-- Members with commas between them. -/
def compactEntries : List (String × Json) → List Char
  | [] => []
  | [(name, j)] => quoted name ++ ':' :: compactChars j
  | (name, j) :: rest => quoted name ++ ':' :: (compactChars j ++ ',' :: compactEntries rest)

end

/-- A new line at the given level of indentation. -/
def newLine (level : Nat) : List Char := '\n' :: List.replicate (2 * level) ' '

mutual

/-- Indented text; `level` is the indentation of the line the value starts on. -/
def prettyChars (level : Nat) : Json → List Char
  | .array [] => ['[', ']']
  | .array items => '[' :: (prettyItems (level + 1) items ++ newLine level ++ [']'])
  | .object [] => ['\x7b', '\x7d']
  | .object entries => '\x7b' :: (prettyEntries (level + 1) entries ++ newLine level ++ ['\x7d'])
  | .null => "null".toList
  | .bool true => "true".toList
  | .bool false => "false".toList
  | .int n => wholeText n
  | .float x => floatText x
  | .string s => quoted s

/-- Items, each on a line of its own. -/
def prettyItems (level : Nat) : List Json → List Char
  | [] => []
  | [j] => newLine level ++ prettyChars level j
  | j :: rest => newLine level ++ prettyChars level j ++ ',' :: prettyItems level rest

/-- Members, each on a line of its own. -/
def prettyEntries (level : Nat) : List (String × Json) → List Char
  | [] => []
  | [(name, j)] => newLine level ++ quoted name ++ ':' :: ' ' :: prettyChars level j
  | (name, j) :: rest =>
    newLine level ++ quoted name ++ ':' :: ' ' ::
      (prettyChars level j ++ ',' :: prettyEntries level rest)

end

/-- Compact JSON text. -/
def compact (j : Json) : String := String.ofList (compactChars j)

/-- Indented JSON text. -/
def pretty (j : Json) : String := String.ofList (prettyChars 0 j)

/-- The text a value adds to a string: a string as it is, anything else as compact JSON. -/
def display : Json → String
  | .string s => s
  | j => j.compact

end Cuesheet.Json
