import PocketShell.Host
import PocketShell.Session
import PocketShell.Settings.Reader
import PocketShell.Tree.Demo

set_option autoImplicit false

/-! # The program

The program runs the lines of its input in one session. Its first argument names a file with
settings, its second a file with the tree in JSON; each may also be given by a variable of
the environment. Prompts and texts go to the output and error lines to the error output. The
program ends at the end of the input, at a line that says so, or at a line that is no text.
-/

namespace PocketShell

/-- What the program finds when it starts. -/
structure Launch where
  /-- What comes of reading the file with settings, if one is named. -/
  settings : Option (Except SourceError ByteArray) := none
  /-- The name of the file with the tree, if one is named, and what comes of reading it. -/
  tree : Option (String × Except SourceError ByteArray) := none
  /-- The input. -/
  input : ByteArray
  /-- The present time. -/
  now : Nat := 0

/-- What the program has written, and whether it has failed. -/
structure Outcome where
  failed : Bool := false
  /-- The lines of the output, without their line ends. -/
  output : List String := []
  /-- The text of the error output. -/
  errors : String := ""
deriving DecidableEq, Repr

namespace Program

/-- The variable that names the file with settings. -/
def settingsVariable : String := "FOLIO_CONFIG"

/-- The variable that names the file with the tree. -/
def treeVariable : String := "FOLIO_TREE"

/-- The name of a file: the argument, or else the value of the variable. -/
def fileName (argument variableValue : Option String) : Option String :=
  argument <|> variableValue

/-- What the program finds when it is started on a host. -/
def launch (host : Host) (arguments : List String) (variableValue : String → Option String)
    (input : ByteArray) : Launch where
  settings := (fileName arguments[0]? (variableValue settingsVariable)).map host.read
  tree := (fileName arguments[1]? (variableValue treeVariable)).map fun path =>
    (path, host.read path)
  input

/-- Why the program fails. -/
inductive Failure where
  /-- The file with the tree cannot be read. -/
  | readingTree (path : String) (error : SourceError)
  /-- The file with the tree holds no record. -/
  | malformedTree (path : String)
  /-- The record is not one of a folder. -/
  | loadingTree (path : String) (error : FileError)
  /-- The input is no text. -/
  | readingInput (error : SourceError)
deriving DecidableEq, Repr

/-- The report of a failure with one cause. -/
def report (doing cause : String) : String := s!"Error: {doing}\n\nCaused by:\n    {cause}\n"

/-- The failure as it is shown. The account of what is wrong with a record stops after its
first words. -/
def Failure.message : Failure → String
  | readingTree path error => report s!"reading base tree {path}" error.message
  | malformedTree path =>
      s!"Error: loading base tree {path}\n\nCaused by:\n    0: JSON error"
  | loadingTree path error => report s!"loading base tree {path}" error.message
  | readingInput error => report "reading stdin" error.message

/-- The file system that the program starts with: the named tree, or the demonstration. -/
def filesOf (tree : Option (String × Except SourceError ByteArray)) : Except Failure FileSystem :=
  match tree with
  | none => (FileSystem.ofRecord Demo.tree).mapError (.loadingTree "")
  | some (path, bytes) =>
      match textOfFile bytes with
      | .error error => .error (.readingTree path error)
      | .ok text =>
          match TreeRecord.ofText? text with
          | none => .error (.malformedTree path)
          | some record => (FileSystem.ofRecord record).mapError (.loadingTree path)

/-- Whether a line ends the program. -/
def isLast (line : String) : Bool := ["exit", "quit", "logout"].contains (Text.trim line)

/-- Adds rendered lines to what has been written. -/
def write (outcome : Outcome) : List OutputLine → Outcome
  | [] => outcome
  | .error message :: rest =>
      write { outcome with errors := outcome.errors ++ message ++ "\n" } rest
  | line :: rest => write { outcome with output := outcome.output ++ [line.display] } rest

/-- The lines of the input in bytes, after the part `current` of the first line that has
been read already, back to front. A line ends at a line feed, together with a carriage
return right before it. -/
def byteLines (current : List UInt8) : List UInt8 → List (List UInt8)
  | [] => if current.isEmpty then [] else [current.reverse]
  | b :: bs =>
      if b = 10 then
        (match current with
          | 13 :: line => line
          | line => line).reverse :: byteLines [] bs
      else byteLines (b :: current) bs

/-- Runs the lines of the input. -/
def runLines (session : Session) (outcome : Outcome) : List (List UInt8) → Outcome
  | [] => outcome
  | bytes :: rest =>
      match textOfBytes (ByteArray.mk bytes.toArray) with
      | .error error =>
          { outcome with
            failed := true
            errors := outcome.errors ++ (Failure.readingInput error).message }
      | .ok line =>
          if isLast line then outcome
          else
            let (lines, session) := session.submit line
            runLines session (write outcome lines) rest

/-- Runs the program. -/
def run (launch : Launch) : Outcome :=
  let settings := (launch.settings.map Settings.ofFileOrDefault).getD {}
  match filesOf launch.tree with
  | .error failure => { failed := true, errors := failure.message }
  | .ok files =>
      let files := { files with clock := launch.now }
      let session := Session.start Builtin.registry files .full settings
      runLines session { output := settings.motd.toList } (byteLines [] launch.input.toList)

end Program

end PocketShell
