import Std.Data.TreeMap
import PocketShell.Path
import PocketShell.Text.Search
import PocketShell.Tree.Record

set_option autoImplicit false

/-! # The overlay of a file system

The nodes made or changed since the base was laid out. Nodes are only ever added to the
array, so the order of their numbers is the order in which their paths were first written;
a path that is written again keeps its number.

The paths are kept in order. All paths below a folder start alike and therefore stand
together, so the children of a folder are found in one stretch of the paths.
-/

namespace PocketShell

/-- The nodes made or changed since the base was laid out. -/
structure Overlay where
  /-- The nodes, by their numbers. -/
  nodes : Array Node
  /-- The number of the node at each path. -/
  paths : Std.TreeMap String Nat

namespace Overlay

/-- The overlay that hides nothing. -/
def none : Overlay := { nodes := #[], paths := ∅ }

/-- Puts a node at a path. -/
def insert (overlay : Overlay) (path : String) (node : Node) : Overlay :=
  match overlay.paths[path]? with
  | some id => { overlay with nodes := overlay.nodes.setIfInBounds id node }
  | Option.none =>
      { nodes := overlay.nodes.push node
        paths := overlay.paths.insert path overlay.nodes.size }

/-- The node at a path. -/
def node? (overlay : Overlay) (path : String) : Option Node :=
  overlay.paths[path]?.bind fun id => overlay.nodes[id]?

/-- The number of paths that have been written. -/
def size (overlay : Overlay) : Nat := overlay.paths.size

/-- Whether `path`, which starts with `start`, goes on with exactly one segment. -/
def isOneBelow (start path : String) : Bool :=
  let rest := path.toList.drop start.toList.length
  !rest.isEmpty && !rest.contains '/'

/-- The paths of the children of the folder `dir` with their numbers, in the order of the
numbers. The scan starts at the first path that is not before those below `dir`, and ends
at the first that is not below it. -/
def childrenOf (overlay : Overlay) (dir : String) : List (String × Nat) :=
  let start := Path.below dir
  let stretch :=
    (overlay.paths.toList.dropWhile fun entry => entry.1 < start).takeWhile
      fun entry => Text.startsWith entry.1 start
  (stretch.filter fun entry => isOneBelow start entry.1).mergeSort fun a b => a.2 ≤ b.2

end Overlay

end PocketShell
