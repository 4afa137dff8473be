/-!
# Paths of documents

A path is normalised by leaving out empty and `.` components and taking `..` back over the
component before it. A relative path keeps the `..` that lead out of its start, and at the root
`..` stays there. Backslashes separate components as slashes do.

A path written in a document is resolved against the folder of that document, unless it starts
with a slash.
-/

set_option autoImplicit false

namespace Cuesheet.Path

/-- Reads a backslash as a slash. -/
def unifyChar (c : Char) : Char := if c = '\\' then '/' else c

/-- Reads every backslash as a slash. -/
def unify (path : List Char) : List Char := path.map unifyChar

/-- The components between slashes; there is always at least one. -/
def split : List Char → List (List Char)
  | [] => [[]]
  | c :: rest =>
    if c = '/' then [] :: split rest
    else
      match split rest with
      | part :: parts => (c :: part) :: parts
      | [] => [[c]]

/-- The components with slashes between them. -/
def join : List (List Char) → List Char
  | [] => []
  | [part] => part
  | part :: parts => part ++ '/' :: join parts

/-- Whether a path starts at the root. -/
def isAbsolute : List Char → Bool
  | '/' :: _ => true
  | _ => false

/-- One step from the components passed so far, last one first. -/
def step (absolute : Bool) (passed : List (List Char)) (part : List Char) : List (List Char) :=
  if part = [] ∨ part = ['.'] then passed
  else if part = ['.', '.'] then
    match passed with
    | last :: before =>
      if last = ['.', '.'] then (if absolute then passed else part :: passed) else before
    | [] => if absolute then [] else [part]
  else part :: passed

/-- The components of a path after normalisation. -/
def parts (path : List Char) : List (List Char) :=
  ((split path).foldl (step (isAbsolute path)) []).reverse

/-- A normalised path, as characters. -/
def normaliseChars (path : List Char) : List Char :=
  let unified := unify path
  let joined := join (parts unified)
  if isAbsolute unified then '/' :: joined else joined

/-- A normalised path. -/
def normalise (path : String) : String := String.ofList (normaliseChars path.toList)

/-- The folder of a document and whether it has one: everything before the last slash. -/
def folder? (document : List Char) : Option (List Char) :=
  match split document with
  | [] | [_] => none
  | several => some (join several.dropLast)

/-- A path written in the document at `document`, as characters. -/
def resolveChars (document path : List Char) : List Char :=
  if isAbsolute path then normaliseChars path
  else
    match folder? (unify document) with
    | some folder => normaliseChars (folder ++ '/' :: path)
    | none => normaliseChars path

/-- The normalised path that `path` means in the document at `document`. -/
def resolve (document path : String) : String :=
  String.ofList (resolveChars document.toList path.toList)

end Cuesheet.Path
