import PocketShell.Path
import PocketShell.Source

set_option autoImplicit false

/-! # The files of a host

The files that a host offers to the program, as a value. A path is read one name after the
other, from the root folder if it starts with a slash and from the working folder
otherwise. An empty name and `.` stay, `..` goes back to the enclosing folder, and any other
name enters what the folder holds under it. Each name, an empty one too, needs a folder to
stand in: no path leads through a file, and a slash at the end leads to folders alone.
-/

namespace PocketShell

/-- The files of a host. A place is given by the names that lead to it from the root, the
innermost first. -/
structure Host where
  files : List (List (List Char) × ByteArray)
  /-- The folders that are there whether or not a file lies below them. -/
  folders : List (List (List Char)) := []
  /-- The place of the working folder. -/
  working : List (List Char) := []

namespace Host

/-! ## Places -/

/-- Whether the place is a folder: the root, or a place at or above a folder, or above a
file. -/
def isFolder (host : Host) (place : List (List Char)) : Bool :=
  ([] :: host.working :: host.folders ++ host.files.map (·.1.tail)).any (place.isSuffixOf ·)

/-- The bytes of the file at the place. -/
def file? (host : Host) (place : List (List Char)) : Option ByteArray :=
  host.files.lookup place

/-- Whether there is a file or a folder at the place. -/
def holds (host : Host) (place : List (List Char)) : Bool :=
  host.isFolder place || (host.file? place).isSome

/-! ## Paths -/

/-- The size in bytes of the longest name. -/
def maxName : Nat := 255

/-- The size in bytes of the longest path. -/
def maxPath : Nat := 4095

/-- One step from a place along a path. -/
def step (host : Host) (place : List (List Char)) (name : List Char) :
    Except SourceError (List (List Char)) :=
  if !host.isFolder place then .error .notFolder
  else if name = [] ∨ name = ['.'] then .ok place
  else if name = ['.', '.'] then .ok place.tail
  else if maxName < (String.ofList name).utf8ByteSize then .error .nameTooLong
  else if host.holds (name :: place) then .ok (name :: place)
  else .error .missing

/-- The place that a path leads to. -/
def find (host : Host) (path : String) : Except SourceError (List (List Char)) :=
  if maxPath < path.utf8ByteSize then .error .nameTooLong
  else if path = "" then .error .missing
  else (Text.split '/' path.toList).foldlM host.step
    (if Text.startsWith path "/" then [] else host.working)

/-- The bytes of the file that a path leads to. -/
def read (host : Host) (path : String) : Except SourceError ByteArray := do
  let place ← host.find path
  match host.file? place with
  | some bytes => .ok bytes
  | none => .error .isFolder

/-! ## The usual host -/

/-- The folders that stand in the root of any host. -/
def usualFolders : List (List (List Char)) :=
  ["bin", "dev", "etc", "home", "lib", "proc", "sys", "tmp", "usr", "var"].map ([·.toList])

/-- The null device, a file without bytes. -/
def nullDevice : List (List Char) × ByteArray := (["null".toList, "dev".toList], .empty)

/-- The usual host with the given files in its working folder. That folder is a temporary
one: it has the empty name, which no path can enter. -/
def ofWorkingFiles (files : List (String × ByteArray)) : Host :=
  let working := [[], "tmp".toList]
  { files := nullDevice :: files.map fun (name, bytes) =>
      ((Path.segments name.toList).reverse ++ working, bytes)
    folders := usualFolders
    working }

end Host

end PocketShell
