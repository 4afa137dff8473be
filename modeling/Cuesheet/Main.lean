import Cuesheet.CommandLine.Run
import Cuesheet.Engine.Uuid

/-!
# The program

The command line on the files of the operating system. Everything that is decided is decided by
`CommandLine.run`; here are only its inputs and outputs.
-/

set_option autoImplicit false

namespace Cuesheet

/-- An error of the operating system as an error of a file. -/
def FileError.ofSystem : IO.Error → FileError
  | .noFileOrDirectory .. => .missing
  | .inappropriateType _ _ _ => .isFolder
  | e => .other (toString e)

/-- The files of the operating system. -/
def systemFiles : FileStore IO where
  isThere path := do
    try
      let _ ← IO.FS.Handle.mk path .read
      return true
    catch _ => return false
  read path := do
    try
      return .ok (← IO.FS.readFile path)
    catch e => return .error (.ofSystem e)
  write path text := do
    try
      IO.FS.writeFile path text
      return .ok ()
    catch e => return .error (.ofSystem e)

/-- A random word. -/
def randomWord : IO UInt64 := do
  let bytes ← IO.getRandomBytes 8
  return bytes.toList.foldl (fun word b => word * 256 + b.toUInt64) 0

end Cuesheet

open Cuesheet in
/-- Runs the command line. -/
def main (arguments : List String) : IO UInt32 := do
  let random := Engine.Uuid.supply (← randomWord) (← randomWord)
  let outcome ← CommandLine.run systemFiles random arguments
  (← IO.getStdout).putStr outcome.stdout
  (← IO.getStderr).putStr outcome.stderr
  return UInt32.ofNat outcome.exit
