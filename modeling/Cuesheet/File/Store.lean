import Cuesheet.Data.Dict
import Cuesheet.Library.Path

/-!
# Places where files are kept

A `FileStore` is what the command line needs of a file system, in any monad. `Folder` is one that
is a plain value: a working folder with the texts of its files under their paths.
-/

set_option autoImplicit false

namespace Cuesheet

/-- Why a file cannot be read or written. -/
inductive FileError where
  | missing | notFolder | isFolder
  | other (reason : String)
  deriving Repr, DecidableEq

namespace FileError

/-- The message of the error, with its number in the operating system. -/
def message : FileError → String
  | missing => "No such file or directory (os error 2)"
  | notFolder => "Not a directory (os error 20)"
  | isFolder => "Is a directory (os error 21)"
  | other reason => reason

end FileError

/-- The operations on files. -/
structure FileStore (m : Type → Type) where
  /-- Whether there is a file or a folder at a path. -/
  isThere : String → m Bool
  read : String → m (Except FileError String)
  write : (path text : String) → m (Except FileError Unit)

/-- A working folder: the texts of its files under the components of their paths. -/
structure Folder where
  files : List (List (List Char) × String)

namespace Folder

def ofList (files : List (String × String)) : Folder :=
  ⟨files.map fun (path, text) => (Path.parts path.toList, text)⟩

/-- The text of the file at the given components. -/
def text? (folder : Folder) (parts : List (List Char)) : Option String :=
  (folder.files.find? (·.1 = parts)).map (·.2)

/-- Whether the components lead to a folder: the working folder, or one with files in it. -/
def isFolder (folder : Folder) (parts : List (List Char)) : Bool :=
  parts.isEmpty || folder.files.any fun file =>
    parts.length < file.1.length && file.1.take parts.length == parts

/-- Goes from a folder along the rest of a path. The last name need not exist. -/
def walk (folder : Folder) (passed : List (List Char)) :
    List (List Char) → Except FileError (List (List Char))
  | [] => .ok passed
  | part :: rest =>
    if !folder.isFolder passed then
      .error (if (folder.text? passed).isSome then .notFolder else .missing)
    else if part = [] ∨ part = ['.'] then walk folder passed rest
    else if part = ['.', '.'] then
      if passed.isEmpty then .error .missing else walk folder passed.dropLast rest
    else walk folder (passed ++ [part]) rest

/-- The components that a path leads to. Nothing outside the working folder is there. -/
def locate (folder : Folder) (path : String) : Except FileError (List (List Char)) :=
  if Path.isAbsolute path.toList then .error .missing
  else folder.walk [] (Path.split path.toList)

/-- Whether there is a file or a folder at a path. -/
def isThere (folder : Folder) (path : String) : Bool :=
  match folder.locate path with
  | .ok parts => folder.isFolder parts || (folder.text? parts).isSome
  | .error _ => false

/-- The text of the file at a path. -/
def read (folder : Folder) (path : String) : Except FileError String := do
  let parts ← folder.locate path
  if folder.isFolder parts then .error .isFolder
  else
    match folder.text? parts with
    | some text => .ok text
    | none => .error .missing

/-- The folder with a text at the given components. -/
def put (folder : Folder) (parts : List (List Char)) (text : String) : Folder :=
  if (folder.text? parts).isSome then
    ⟨folder.files.map fun file => if file.1 = parts then (parts, text) else file⟩
  else ⟨folder.files ++ [(parts, text)]⟩

/-- Writes a text to the file at a path. A path with a slash at its end can only be a folder. -/
def write (folder : Folder) (path text : String) : Except FileError Folder := do
  let name := (path.toList.reverse.dropWhile (· == '/')).reverse
  let parts ← folder.locate (String.ofList name)
  if folder.isFolder parts || name.length < path.length then .error .isFolder
  else .ok (folder.put parts text)

/-- The files under their paths. -/
def toList (folder : Folder) : List (String × String) :=
  folder.files.map fun (parts, text) => (String.ofList (Path.join parts), text)

/-- The operations on files, with the folder as state. -/
def store : FileStore (StateM Folder) where
  isThere path := fun folder => (folder.isThere path, folder)
  read path := fun folder => (folder.read path, folder)
  write path text := fun folder =>
    match folder.write path text with
    | .ok changed => (.ok (), changed)
    | .error e => (.error e, folder)

end Folder

end Cuesheet
