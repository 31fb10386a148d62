import PocketShell.ByteSize
import PocketShell.Calendar
import PocketShell.FileSystem.Basic
import PocketShell.Text.Column

set_option autoImplicit false

/-! # Reading and listing

The content of a file, what is known about a node, and the listing of a folder. A listing
has folders before files and each group in the order of names; in long form every entry
has a line with permissions, links, owner, group, size, date and name.
-/

namespace PocketShell

/-- What a listing is to show. -/
structure ListOptions where
  /-- Start with entries for the folder itself and for its parent. -/
  all : Bool := false
  /-- Give a line in long form for each entry. -/
  long : Bool := false
  /-- In long form, give sizes in the unit that suits them. -/
  human : Bool := false
deriving DecidableEq, Repr

/-- An entry of a listing. -/
structure Entry where
  name : String
  kind : NodeKind
  size : Nat
  modified : Option Nat
  /-- The line in long form, if asked for. -/
  long : Option String
deriving DecidableEq, Repr

/-- What is known about a node. -/
structure NodeReport where
  path : String
  name : String
  kind : NodeKind
  size : Nat
  created : Option Nat
  modified : Option Nat
  subtype : Subtype
deriving DecidableEq, Repr

namespace FileSystem

/-- The line in long form for a node shown under a name. -/
def longLine (fs : FileSystem) (name : String) (node : Node) (human : Bool) : String :=
  let size := if human then ByteSize.humanSize node.size else toString node.size
  let time := (node.modified <|> node.created).getD 0
  s!"{node.kind.permissions} {Text.alignRight 2 (toString node.kind.linkCount)} " ++
    s!"{fs.owner} {fs.owner} {Text.alignRight 6 size} {Calendar.listingForm time} {name}"

/-- The entry for a node shown under a name. -/
def entry (fs : FileSystem) (options : ListOptions) (name : String) (node : Node) : Entry :=
  { name
    kind := node.kind
    size := node.size
    modified := node.modified
    long := if options.long then some (fs.longLine name node options.human) else none }

/-- The entries of the folder that `input` names, or the one entry of a file. Without
`input` the working directory is listed. -/
def list (fs : FileSystem) (input : Option String) (options : ListOptions) :
    Except FileError (List Entry) := do
  let target := (input.map fs.resolve).getD fs.cwd
  let node ← fs.require target
  if node.isFolder then
    let above :=
      if options.all then
        fs.entry options "." node ::
          ((fs.lookup (Path.parent target)).map (fs.entry options "..")).toList
      else []
    return above ++ (fs.sortedChildren target).map fun child =>
      fs.entry options child.2.name child.2
  else
    return [fs.entry options (Path.fileName target) node]

/-- The content of the file that `input` names, empty if the file carries none. -/
def read (fs : FileSystem) (input : String) : Except FileError String := do
  let target := fs.resolve input
  let node ← fs.require target
  if node.isFolder then .error (.isAFolder target) else return node.content.getD ""

/-- What is known about the node that `input` names. -/
def report (fs : FileSystem) (input : String) : Except FileError NodeReport := do
  let path := fs.resolve input
  let node ← fs.require path
  return {
    path
    name := Path.fileName path
    kind := node.kind
    size := node.size
    created := node.created
    modified := node.modified
    subtype := .classify node.name node.kind }

end FileSystem

end PocketShell
