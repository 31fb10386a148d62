import Std.Data.TreeMap
import PocketShell.Path
import PocketShell.Tree.Record

set_option autoImplicit false

/-! # The base of a file system

The tree that the host supplies is laid out once and never changes. Its nodes stand in one
array, each with the numbers of its children, and an index leads from every path to the
number of its node, so that no look-up walks the tree.

Of the children of a folder only those with a proper name are taken, and of several with
one name only the first. What a record gives as children of a file is left aside.
-/

namespace PocketShell

/-- What went wrong with a path. Each error names the path at fault. -/
inductive FileError where
  | notFound (path : String)
  | notAFolder (path : String)
  | isAFolder (path : String)
  | alreadyExists (path : String)
deriving DecidableEq, Repr

namespace FileError

/-- The error as it is shown. -/
def message : FileError → String
  | notFound path => s!"no such file or directory: {path}"
  | notAFolder path => s!"not a directory: {path}"
  | isAFolder path => s!"is a directory: {path}"
  | alreadyExists path => s!"file exists: {path}"

end FileError

/-- A node of the base with the numbers of its children, in the order of the record. -/
structure BaseCell where
  node : Node
  children : List Nat
deriving DecidableEq, Repr

/-- The tree that the host supplies. -/
structure Base where
  /-- The nodes, by their numbers. -/
  cells : Array BaseCell
  /-- The number of the node at each path. -/
  index : Std.TreeMap String Nat

namespace Base

/-- The base without any node. -/
def none : Base := { cells := #[], index := ∅ }

/-- Puts a node without children at a path; its number is the number of nodes before. -/
def push (base : Base) (path : String) (node : Node) : Base :=
  { cells := base.cells.push { node, children := [] }
    index := base.index.insert path base.cells.size }

/-- Records the children of a node. -/
def setChildren (base : Base) (id : Nat) (children : List Nat) : Base :=
  { base with cells := base.cells.modify id fun cell => { cell with children } }

/-- Whether a record can be laid out as a child of the folder `dir`: its name is proper and
not taken. -/
def admits (base : Base) (dir name : String) : Bool :=
  Path.isName name && !base.index.contains (Path.child dir name)

mutual

/-- Lays out a record at a path and gives the number of its node. -/
def addRecord (base : Base) (path : String) : TreeRecord → Base × Nat
  | .mk node children =>
      let id := base.cells.size
      let base := base.push path { node with name := Path.fileName path }
      match node.kind with
      | .file => (base, id)
      | .folder =>
          let (base, ids) := addChildren base path children
          (base.setChildren id ids, id)

/-- Lays out the records that the folder `dir` admits, and gives the numbers of their
nodes. -/
def addChildren (base : Base) (dir : String) : List TreeRecord → Base × List Nat
  | [] => (base, [])
  | .mk node children :: rest =>
      if base.admits dir node.name then
        let (base, id) := addRecord base (Path.child dir node.name) (.mk node children)
        let (base, ids) := addChildren base dir rest
        (base, id :: ids)
      else addChildren base dir rest

end

/-- The base that a record describes. The record has to be one of a folder. -/
def ofRecord (record : TreeRecord) : Except FileError Base :=
  if record.node.isFolder then .ok (none.addRecord Path.root record).1
  else .error (.notAFolder Path.root)

/-- The base with nothing but the root folder. -/
def rootOnly : Base := (none.addRecord Path.root (.folder "" [])).1

/-- The cell of the node at a path. -/
def cell? (base : Base) (path : String) : Option BaseCell :=
  base.index[path]?.bind fun id => base.cells[id]?

/-- The node at a path. -/
def node? (base : Base) (path : String) : Option Node := (base.cell? path).map BaseCell.node

/-- The children of the node at a path, in the order of the record. -/
def childrenOf (base : Base) (path : String) : List Node :=
  match base.cell? path with
  | Option.none => []
  | some cell => cell.children.filterMap fun id => base.cells[id]?.map BaseCell.node

end Base

end PocketShell
