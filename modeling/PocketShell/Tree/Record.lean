import PocketShell.Json
import PocketShell.Tree.Kind

set_option autoImplicit false

/-! # Tree records

The tree that a host hands over is a record: a node with the records of its children. A
record is usually written as a JSON object with the fields `name`, `kind`, `content`,
`size`, `created`, `modified` and `children`, of which only the first two have to be there.
-/

namespace PocketShell

/-- A node of a file tree. Its size is given, or follows from its content. -/
structure Node where
  name : String
  kind : NodeKind
  content : Option String := none
  givenSize : Option Nat := none
  created : Option Nat := none
  modified : Option Nat := none
deriving DecidableEq, Repr

namespace Node

/-- The size of a folder that carries none. -/
def folderSize : Nat := 4096

/-- The size of a node: the given one, else the number of bytes of a file's content, else
`folderSize`. -/
def size (n : Node) : Nat :=
  match n.givenSize, n.kind with
  | some size, _ => size
  | none, .file => (n.content.map String.utf8ByteSize).getD 0
  | none, .folder => folderSize

/-- Whether the node is a folder. -/
def isFolder (n : Node) : Bool := n.kind == .folder

/-- An empty folder made at the time `now`. -/
def newFolder (name : String) (now : Nat) : Node :=
  { name, kind := .folder, created := some now, modified := some now }

/-- An empty file made at the time `now`. -/
def newFile (name : String) (now : Nat) : Node :=
  { name, kind := .file, content := some "", created := some now, modified := some now }

end Node

/-- A node with the records of its children. -/
inductive TreeRecord where
  | mk (node : Node) (children : List TreeRecord)

namespace TreeRecord

/-- The node of a record. -/
def node : TreeRecord → Node
  | mk node _ => node

/-- The records of the children. -/
def children : TreeRecord → List TreeRecord
  | mk _ children => children

/-- The record of a folder. -/
def folder (name : String) (children : List TreeRecord) : TreeRecord :=
  mk { name, kind := .folder } children

/-- The record of a file with the given text. -/
def file (name content : String) : TreeRecord :=
  mk { name, kind := .file, content := some content } []

/-- The record with both times set. -/
def withTimes (record : TreeRecord) (created modified : Nat) : TreeRecord :=
  mk { record.node with created := some created, modified := some modified } record.children

/-- The record with the size set. -/
def withSize (record : TreeRecord) (size : Nat) : TreeRecord :=
  mk { record.node with givenSize := some size } record.children

/-! ## Records written as JSON -/

/-- The kind that a word stands for. -/
def kind? (word : String) : Option NodeKind :=
  if word = "file" then some .file
  else if word = "folder" ∨ word = "directory" ∨ word = "dir" then some .folder
  else none

/-- The values of the fields with the given key. -/
def valuesOf (key : String) (fields : List (Option String × Json)) : List Json :=
  (fields.filter fun field => field.1 == some key).map Prod.snd

/-- A field that has to be there once, read by `read`. -/
def required {α : Type} (key : String) (read : Json → Option α)
    (fields : List (Option String × Json)) : Option α :=
  match valuesOf key fields with
  | [value] => read value
  | _ => none

/-- A field that may be absent or null, and is read by `read` otherwise. It is there at
most once. -/
def optional {α : Type} (key : String) (read : Json → Option α)
    (fields : List (Option String × Json)) : Option (Option α) :=
  match valuesOf key fields with
  | [] | [.null] => some none
  | [value] => (read value).map some
  | _ => none

/-- The children of a record, given as an array whose items are read by `read`; none if
the field is absent. -/
def childrenOf (read : List Json → Option (List TreeRecord))
    (fields : List (Option String × Json)) : Option (List TreeRecord) :=
  match valuesOf "children" fields with
  | [] => some []
  | [.array items] => read items
  | _ => none

/-- The record that an object stands for, its children read by `read`. Fields with other
keys are left aside, but every key has to stand for a text. -/
def ofFields (read : List Json → Option (List TreeRecord)) : Json → Option TreeRecord
  | .object fields =>
      if fields.all fun field => field.1.isSome then do
        let name ← required "name" Json.text? fields
        let kind ← required "kind" (fun value => value.text?.bind kind?) fields
        let content ← optional "content" Json.text? fields
        let givenSize ← optional "size" Json.natural? fields
        let created ← optional "created" Json.natural? fields
        let modified ← optional "modified" Json.natural? fields
        let children ← childrenOf read fields
        some (mk { name, kind, content, givenSize, created, modified } children)
      else none
  | _ => none

/-- The record that a value stands for, if its objects and arrays of children are nested
at most `room` deep. -/
def ofJson? : Nat → Json → Option TreeRecord
  | 0, _ => none
  | 1, value => ofFields (fun _ => none) value
  | room + 2, value => ofFields (fun items => items.mapM (ofJson? room)) value

/-- The number of objects and arrays that may be nested in the text of a record. -/
def maxNesting : Nat := 127

/-- The record that a JSON text stands for. -/
def ofText? (text : String) : Option TreeRecord :=
  (Json.ofText? text).bind (ofJson? maxNesting)

end TreeRecord

end PocketShell
