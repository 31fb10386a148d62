import PocketShell.FileSystem.Basic
import PocketShell.Glob

set_option autoImplicit false

/-! # Searching and drawing

Both walk the tree below a folder. A search gives the paths in stored order, every folder
before what it holds; a drawing has one row for each node down to a given depth, in the
order of listings, with lines that connect a folder to its children.
-/

namespace PocketShell

/-- What a search is to find: nodes whose name a pattern accepts, nodes of one kind. -/
structure Search where
  name : Option Glob := none
  kind : Option NodeKind := none
deriving DecidableEq

namespace Search

/-- Whether a node is to be found. -/
def finds (search : Search) (node : Node) : Bool :=
  search.kind.all (· == node.kind) && search.name.all (·.accepts node.name)

end Search

/-- A row of a drawing. -/
structure DrawnRow where
  text : String
  kind : NodeKind
deriving DecidableEq, Repr

/-- A drawing of the tree below a folder. -/
structure Drawing where
  rows : List DrawnRow
deriving DecidableEq, Repr

namespace Drawing

/-- The lines of the drawing. -/
def lines (drawing : Drawing) : List String := drawing.rows.map DrawnRow.text

/-- The number of folders drawn. -/
def folders (drawing : Drawing) : Nat := drawing.rows.countP (·.kind == .folder)

/-- The number of files drawn. -/
def files (drawing : Drawing) : Nat := drawing.rows.countP (·.kind == .file)

end Drawing

namespace FileSystem

/-- The number of nodes, an upper bound for the depth of the tree. -/
def nodeCount (fs : FileSystem) : Nat := fs.base.cells.size + fs.overlay.nodes.size

/-- The nodes at most `depth` levels below the folder `dir` with their paths, every folder
before what it holds. -/
def descendants (fs : FileSystem) : Nat → String → List (String × Node)
  | 0, _ => []
  | depth + 1, dir =>
      (fs.children dir).flatMap fun child =>
        child :: if child.2.isFolder then fs.descendants depth child.1 else []

/-- The paths of the nodes below the one that `input` names which the search finds. There
are none below a file. -/
def find (fs : FileSystem) (input : String) (search : Search) :
    Except FileError (List String) := do
  let start := fs.resolve input
  let node ← fs.require start
  if node.isFolder then
    return ((fs.descendants fs.nodeCount start).filter fun found =>
      search.finds found.2).map Prod.fst
  else return []

/-- The rows of the given siblings, each with the rows below it. `rowsBelow` draws a folder
with a given indentation. -/
def drawSiblings (rowsBelow : String → String → List DrawnRow) (indent : String) :
    List (String × Node) → List DrawnRow
  | [] => []
  | (path, node) :: rest =>
      let isLast := rest.isEmpty
      let branch := if isLast then "└── " else "├── "
      let row := indent ++ branch ++ node.name ++ (if node.isFolder then "/" else "")
      let deeper := indent ++ (if isLast then "    " else "│   ")
      { text := row, kind := node.kind } ::
        ((if node.isFolder then rowsBelow path deeper else []) ++
          drawSiblings rowsBelow indent rest)

/-- The rows of the nodes at most `depth` levels below the folder `dir`. -/
def drawRows (fs : FileSystem) : Nat → String → String → List DrawnRow
  | 0, _, _ => []
  | depth + 1, dir, indent =>
      drawSiblings (fs.drawRows depth) indent (fs.sortedChildren dir)

/-- A drawing of the nodes at most `depth` levels below the folder that `input` names. -/
def draw (fs : FileSystem) (input : String) (depth : Nat) : Except FileError Drawing := do
  let start := fs.resolve input
  let _ ← fs.requireFolder start
  return { rows := fs.drawRows depth start "" }

end FileSystem

end PocketShell
