import PocketShell.Text.Search

set_option autoImplicit false

/-! # Kinds of nodes

A node of the file tree is a file or a folder. Permissions and link counts depend on the
kind alone. The subtype of a file is told from the extension of its name.
-/

namespace PocketShell

/-- The two kinds of nodes. -/
inductive NodeKind where
  | file
  | folder
deriving DecidableEq, Repr

/-- What a file is for, as far as its name tells. -/
inductive Subtype where
  | directory
  | image
  | code
  | document
  | audio
  | video
  | archive
  | text
  | file
deriving DecidableEq, Repr

namespace NodeKind

/-- The name of a kind. -/
def name : NodeKind → String
  | file => "file"
  | folder => "folder"

/-- The permissions that a listing shows. -/
def permissions : NodeKind → String
  | file => "-rw-r--r--"
  | folder => "drwxr-xr-x"

/-- The number of links that a listing shows. -/
def linkCount : NodeKind → Nat
  | file => 1
  | folder => 2

end NodeKind

namespace Subtype

/-- The name of a subtype. -/
def name : Subtype → String
  | directory => "directory"
  | image => "image"
  | code => "code"
  | document => "document"
  | audio => "audio"
  | video => "video"
  | archive => "archive"
  | text => "text"
  | file => "file"

/-- The extensions of each subtype that is told by the extension. -/
def extensions : List (Subtype × List String) :=
  [(image, ["png", "jpg", "jpeg", "gif", "svg", "webp", "bmp", "ico"]),
   (code, ["rs", "js", "jsx", "ts", "tsx", "py", "go", "c", "h", "cpp", "java",
     "rb", "sh", "json", "toml", "yaml", "yml", "html", "css"]),
   (document, ["md", "pdf", "doc", "docx", "rtf"]),
   (audio, ["mp3", "wav", "ogg", "flac"]),
   (video, ["mp4", "webm", "mov", "mkv"]),
   (archive, ["zip", "tar", "gz", "tgz", "7z"]),
   (text, ["txt", "log", "csv"])]

/-- The extension of a file name in lower case: what follows the last point, if anything
precedes that point. Only ASCII letters change case. -/
def extension? (name : String) : Option String :=
  match Text.cut? '.' name.toList.reverse with
  | some (extension, stem) =>
      if stem.isEmpty then none else some (String.ofList (extension.reverse.map Char.toLower))
  | none => none

/-- The subtype of a node: `directory` for a folder, else as the extension says, and
`file` where it says nothing. -/
def classify (name : String) (kind : NodeKind) : Subtype :=
  match kind, extension? name with
  | .folder, _ => directory
  | .file, none => file
  | .file, some extension =>
      ((extensions.find? (·.2.contains extension)).map Prod.fst).getD file

end Subtype

end PocketShell
