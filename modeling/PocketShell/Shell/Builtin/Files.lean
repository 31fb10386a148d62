import PocketShell.FileSystem.Traversal
import PocketShell.Shell.Basic
import PocketShell.Text.Column

set_option autoImplicit false

/-! # Commands on files

`pwd`, `cd`, `ls`, `cat`, `mkdir`, `touch`, `stat`, `find` and `tree`.
-/

namespace PocketShell.Builtin

open ShellM

/-! ## The working directory -/

/-- Shows the working directory. -/
def pwd : Command Handler where
  description := {
    name := "pwd"
    summary := "Print working directory"
    usage := "pwd"
    category := "filesystem" }
  action _ := return .line (← get).files.cwd

/-- Goes to a folder, without an argument to the root. -/
def cd : Command Handler where
  description := {
    name := "cd"
    summary := "Change directory"
    usage := "cd [path|-]"
    category := "filesystem"
    examples := ["cd projects", "cd ..", "cd -"] }
  action inv := do
    let _ ← onFiles (·.changeDirectory ((inv.arg? 0).getD "~"))
    return .nothing

/-! ## Listings -/

/-- The line of an entry: the long form if there is one, else the name, with a slash after
the name of a folder. -/
def entryLine (entry : Entry) : String :=
  match entry.long with
  | some long => long
  | none =>
      if entry.kind = .folder ∧ entry.name ≠ "." ∧ entry.name ≠ ".." then entry.name ++ "/"
      else entry.name

/-- The lines of a listing. -/
def listLines (path : Option String) (options : ListOptions) : ShellM (List String) :=
  return (← askFiles (·.list path options)).map entryLine

/-- The listings of several paths, each under its path and with an empty line between. -/
def listEach (options : ListOptions) : List String → ShellM (List String)
  | [] => return []
  | path :: rest => do
      let lines ← listLines (some path) options
      let more ← listEach options rest
      return s!"{path}:" :: lines ++ (if rest.isEmpty then [] else "" :: more)

/-- Lists folders. -/
def ls : Command Handler where
  description := {
    name := "ls"
    summary := "List directory contents"
    usage := "ls [-alh] [path...]"
    category := "filesystem"
    aliases := ["dir"]
    flags := [
      { name := "-a", help := "include . and .." },
      { name := "-l", help := "long listing" },
      { name := "-h", help := "human-readable sizes (with -l)" }]
    examples := ["ls", "ls -la /projects"] }
  action inv := do
    let options : ListOptions := {
      all := inv.hasAnyFlag ["a", "all"]
      long := inv.hasFlag "l"
      human := inv.hasAnyFlag ["h", "human-readable"] }
    match inv.args with
    | [] => return .lines (← listLines none options)
    | [path] => return .lines (← listLines (some path) options)
    | paths => return .lines (← listEach options paths)

/-! ## Reading and writing -/

/-- Shows the lines of files, one file after the other. -/
def cat : Command Handler where
  description := {
    name := "cat"
    summary := "Print file contents"
    usage := "cat <file...>"
    category := "filesystem"
    requiresArgs := true }
  action inv := do
    let files ← inv.args.mapM fun path => return Text.lines (← askFiles (·.read path))
    return .lines files.flatten

/-- Makes folders. -/
def mkdir : Command Handler where
  description := {
    name := "mkdir"
    summary := "Create a directory"
    usage := "mkdir [-p] <path...>"
    category := "filesystem"
    flags := [{ name := "-p", help := "create missing parents" }]
    requiresArgs := true }
  action inv := do
    let parents := inv.hasAnyFlag ["p", "parents"]
    let _ ← inv.args.mapM fun path => onFiles (·.makeFolder path parents)
    return .nothing

/-- What `touch` says about a path. -/
def touchedLine (path : String) : Touched → String
  | .created => s!"{path}: created"
  | .updated => s!"{path}: updated"

/-- Makes files, or sets the time of their last change. -/
def touch : Command Handler where
  description := {
    name := "touch"
    summary := "Create a file or update its timestamp"
    usage := "touch <file...>"
    category := "filesystem"
    requiresArgs := true }
  action inv :=
    return .lines (← inv.args.mapM fun path =>
      return touchedLine path (← onFiles (·.touch path)))

/-- A time that may be unknown. -/
def timeText (time : Option Nat) : String := (time.map Calendar.fullForm).getD "-"

/-- What is known about a node, line by line. -/
def reportLines (report : NodeReport) : List String :=
  [s!"  File: {report.path}",
   s!"  Type: {report.kind.name} ({report.subtype.name})",
   s!"  Size: {report.size}",
   s!"Created: {timeText report.created}",
   s!"Modified: {timeText report.modified}"]

/-- What is known about `stat` itself. -/
def statDescription : Description where
  name := "stat"
  summary := "Show file metadata"
  usage := "stat <path>"
  category := "filesystem"
  requiresArgs := true

/-- Shows what is known about a node. -/
def stat : Command Handler where
  description := statDescription
  action inv := do
    let path ← orUsage statDescription (inv.arg? 0)
    return .lines (reportLines (← askFiles (·.report path)))

/-! ## Walking the tree -/

/-- The start and the conditions of a search, read from the words of the command; `none` if
they are not as the usage says. -/
def searchOf (start : Option String) (search : Search) :
    List String → Option (Option String × Search)
  | [] => some (start, search)
  | "-name" :: pattern :: rest => searchOf start { search with name := some { pattern } } rest
  | "-type" :: "f" :: rest => searchOf start { search with kind := some .file } rest
  | "-type" :: "d" :: rest => searchOf start { search with kind := some .folder } rest
  | word :: rest =>
      if Text.startsWith word "-" || start.isSome then none else searchOf (some word) search rest

/-- What is known about `find` itself. -/
def findDescription : Description where
  name := "find"
  summary := "Search for files by name or type"
  usage := "find [path] [-name PATTERN] [-type f|d]"
  category := "filesystem"
  examples := ["find . -name \"*.md\"", "find /projects -type d"]

/-- Shows the paths of the nodes that a search finds. -/
def find : Command Handler where
  description := findDescription
  action inv := do
    let (start, search) ← orUsage findDescription (searchOf none {} inv.words)
    return .lines (← askFiles (·.find (start.getD ".") search))

/-- What is known about `tree` itself. -/
def treeDescription : Description where
  name := "tree"
  summary := "Display directory tree"
  usage := "tree [-L depth] [path]"
  category := "filesystem"
  flags := [{ name := "-L N", help := "descend at most N levels" }]

/-- The depth and the start of a drawing, read from the words of the command. The last of
several counts. -/
def drawingOf (depth : Nat) (start : Option String) :
    List String → ShellM (Nat × Option String)
  | [] => return (depth, start)
  | ["-L"] => do
      let depth ← readCount "tree" none
      return (depth, start)
  | "-L" :: count :: rest => do
      let depth ← readCount "tree" (some count)
      drawingOf depth start rest
  | word :: rest =>
      if Text.startsWith word "-" then refuseUsage treeDescription
      else drawingOf depth (some word) rest

/-- Draws the tree below a folder, with the numbers of folders and files at the end. -/
def tree : Command Handler where
  description := treeDescription
  action inv := do
    let (depth, start) ← drawingOf (← read).settings.treeDepth none inv.words
    let path := start.getD "."
    let drawing ← askFiles (·.draw path depth)
    let folders := Text.counted drawing.folders "directory" "directories"
    let files := Text.counted drawing.files "file" "files"
    return .lines (path :: drawing.lines ++ ["", s!"{folders}, {files}"])

/-- The commands on files. -/
def fileCommands : List (Command Handler) :=
  [pwd, cd, ls, cat, mkdir, touch, stat, find, tree]

end PocketShell.Builtin
