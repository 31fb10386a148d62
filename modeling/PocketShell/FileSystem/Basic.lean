import PocketShell.FileSystem.Base
import PocketShell.FileSystem.Overlay

set_option autoImplicit false

/-! # The file system of a session

A file system shows the base through the overlay: a path that the overlay holds is looked
up there, any other in the base. The children of a folder are those of the base, in the
order of the record and each as the overlay shows it, followed by those that only the
overlay has, in the order in which they were made.

An operation gives its answer together with the file system that it leaves behind, also
when the answer is an error. Every node that is made or touched is stamped with a reading of
the clock of its own, and time may pass between two readings.
-/

namespace PocketShell

/-- A file system with its working directory. -/
structure FileSystem where
  base : Base
  overlay : Overlay := .none
  /-- The working directory. -/
  cwd : String := Path.root
  /-- The working directories that were left for another, the latest first. -/
  earlier : List String := []
  /-- The owner and group that listings show. -/
  owner : String := "guest"
  /-- The present time. -/
  clock : Nat := 0
  /-- What the clock shows after each of its next readings. It stands still after the last. -/
  readings : List Nat := []

/-- What touching a path did. -/
inductive Touched where
  | created
  | updated
deriving DecidableEq, Repr

namespace FileSystem

/-- The file system with nothing but the root folder. -/
def empty : FileSystem := { base := .rootOnly }

/-- The file system over the tree that a record describes. -/
def ofRecord (record : TreeRecord) : Except FileError FileSystem :=
  (Base.ofRecord record).map fun base => { base }

/-! ## Looking up -/

/-- The node at a canonical path. -/
def lookup (fs : FileSystem) (path : String) : Option Node :=
  match fs.overlay.node? path with
  | some node => some node
  | none => fs.base.node? path

/-- The children of the folder `dir` with their paths, in stored order. -/
def children (fs : FileSystem) (dir : String) : List (String × Node) :=
  let supplied := (fs.base.childrenOf dir).map fun node =>
    let path := Path.child dir node.name
    (path, (fs.overlay.node? path).getD node)
  let made := (fs.overlay.childrenOf dir).filterMap fun (path, id) =>
    if fs.base.index.contains path then none
    else fs.overlay.nodes[id]?.map fun node => (path, node)
  supplied ++ made

/-- Whether a node stands before another in a listing: folders before files, then by
name. -/
def listedBefore (a b : String × Node) : Bool :=
  if a.2.isFolder = b.2.isFolder then a.2.name ≤ b.2.name else a.2.isFolder

/-- The children of the folder `dir`, folders first and then by name. -/
def sortedChildren (fs : FileSystem) (dir : String) : List (String × Node) :=
  (fs.children dir).mergeSort listedBefore

/-- The node at a path that has to exist. -/
def require (fs : FileSystem) (path : String) : Except FileError Node :=
  match fs.lookup path with
  | some node => .ok node
  | none => .error (.notFound path)

/-- The node at a path that has to be a folder. -/
def requireFolder (fs : FileSystem) (path : String) : Except FileError Node :=
  match fs.lookup path with
  | some node => if node.isFolder then .ok node else .error (.notAFolder path)
  | none => .error (.notFound path)

/-- The canonical path that `input` names from the working directory. -/
def resolve (fs : FileSystem) (input : String) : String := Path.resolve fs.cwd input

/-- The node that `input` names. -/
def node? (fs : FileSystem) (input : String) : Option Node := fs.lookup (fs.resolve input)

/-- Whether `input` names a node. -/
def holds (fs : FileSystem) (input : String) : Bool := (fs.node? input).isSome

/-- Whether `input` names a folder. -/
def holdsFolder (fs : FileSystem) (input : String) : Bool :=
  (fs.node? input).any Node.isFolder

/-- The number of nodes made or changed. -/
def changes (fs : FileSystem) : Nat := fs.overlay.size

/-! ## The working directory -/

/-- Goes to the folder that `input` names; no input at all names the root. `-` goes back to
the directory that was left last, and stays if there is none. -/
def changeDirectory (fs : FileSystem) (input : String) : Except FileError String × FileSystem :=
  if input = "-" then
    match fs.earlier with
    | [] => (.ok fs.cwd, fs)
    | previous :: earlier => (.ok previous, { fs with cwd := previous, earlier })
  else
    let target := if input = "" then Path.root else fs.resolve input
    match fs.requireFolder target with
    | .error e => (.error e, fs)
    | .ok _ => (.ok target, { fs with cwd := target, earlier := fs.cwd :: fs.earlier })

/-! ## Writing -/

/-- Puts a node at a canonical path. -/
def put (fs : FileSystem) (path : String) (node : Node) : FileSystem :=
  { fs with overlay := fs.overlay.insert path node }

/-- The file system after the clock has been read. -/
def tick (fs : FileSystem) : FileSystem :=
  match fs.readings with
  | [] => fs
  | time :: later => { fs with clock := time, readings := later }

/-- Makes the folders on the way from `dir` along the given segments, as far as they are
missing. -/
def makeFolders (fs : FileSystem) (dir : String) :
    List String → Except FileError Unit × FileSystem
  | [] => (.ok (), fs)
  | segment :: rest =>
      let path := Path.child dir segment
      match fs.lookup path with
      | some node =>
          if node.isFolder then fs.makeFolders path rest else (.error (.notAFolder path), fs)
      | none => (fs.put path (.newFolder segment fs.clock)).tick.makeFolders path rest

/-- The segments of a canonical path. -/
def segmentsOf (path : String) : List String :=
  ((Text.split '/' path.toList).filter (· ≠ [])).map String.ofList

/-- Makes the folder that `input` names and gives its path. Its parent has to be a folder;
with `parents` the missing folders above it are made first. -/
def makeFolder (fs : FileSystem) (input : String) (parents : Bool) :
    Except FileError String × FileSystem :=
  let target := fs.resolve input
  let finish (fs : FileSystem) :=
    ((.ok target : Except FileError String),
      (fs.put target (.newFolder (Path.fileName target) fs.clock)).tick)
  match fs.lookup target with
  | some _ => (.error (.alreadyExists target), fs)
  | none =>
      let parent := Path.parent target
      match fs.lookup parent with
      | some node => if node.isFolder then finish fs else (.error (.notAFolder parent), fs)
      | none =>
          if parents then
            match fs.makeFolders Path.root (segmentsOf parent) with
            | (.ok (), fs) => finish fs
            | (.error e, fs) => (.error e, fs)
          else (.error (.notFound parent), fs)

/-- Sets the time of the last change of the node that `input` names to the present. If
there is no such node, makes an empty file, whose parent has to be a folder. The clock is
read in any case. -/
def touch (fs : FileSystem) (input : String) : Except FileError Touched × FileSystem :=
  let target := fs.resolve input
  let now := fs.clock
  let fs := fs.tick
  match fs.lookup target with
  | some node => (.ok .updated, fs.put target { node with modified := some now })
  | none =>
      match fs.requireFolder (Path.parent target) with
      | .error e => (.error e, fs)
      | .ok _ => (.ok .created, fs.put target (.newFile (Path.fileName target) now))

end FileSystem

end PocketShell
