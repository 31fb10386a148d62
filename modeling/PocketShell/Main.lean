import Std.Time.DateTime.Timestamp
import PocketShell.Program

set_option autoImplicit false

/-! # The command line

Reads the two files and the input, runs the program, and writes what it has to say.
-/

namespace PocketShell.Program

/-- The code of the error of reading a folder as a file. -/
def folderCode : UInt32 := 21

/-- Why a file cannot be read. -/
def causeOf : IO.Error → SourceError
  | .noFileOrDirectory .. => .missing
  | .inappropriateType _ code _ =>
      if code = folderCode ∨ code = -folderCode then .isFolder else .notFolder
  | .invalidArgument .. => .nameTooLong
  | .permissionDenied .. => .denied
  | error => .other (toString error)

/-- What comes of reading the bytes of a file. -/
def bytesOf (path : String) : IO (Except SourceError ByteArray) := do
  try return .ok (← IO.FS.readBinFile path)
  catch error => return .error (causeOf error)

/-- The present time in seconds. -/
def presentTime : IO Nat := do
  return (← Std.Time.Timestamp.now).toSecondsSinceUnixEpoch.val.toNat

/-- What the program finds when it is started with the given arguments. -/
def launchOf (arguments : List String) : IO Launch := do
  let settings ← match fileName arguments[0]? (← IO.getEnv settingsVariable) with
    | some path => some <$> bytesOf path
    | none => pure none
  let tree ← match fileName arguments[1]? (← IO.getEnv treeVariable) with
    | some path => (fun bytes => some (path, bytes)) <$> bytesOf path
    | none => pure none
  return { settings, tree, input := ← (← IO.getStdin).readBinToEnd, now := ← presentTime }

end PocketShell.Program

/-- Runs the program on the files that the arguments name and on the input. -/
def main (arguments : List String) : IO UInt32 := do
  let outcome := PocketShell.Program.run (← PocketShell.Program.launchOf arguments)
  for line in outcome.output do
    IO.println line
  IO.eprint outcome.errors
  return if outcome.failed then 1 else 0
