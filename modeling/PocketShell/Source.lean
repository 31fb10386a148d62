set_option autoImplicit false

/-! # Texts from outside

A text that a host supplies as the bytes of a file: the file may be out of reach, and its
bytes may be no text in UTF-8.
-/

namespace PocketShell

/-- Why a file supplies no text. -/
inductive SourceError where
  /-- Nothing has the name. -/
  | missing
  /-- The path goes on after a file. -/
  | notFolder
  /-- The path leads to a folder. -/
  | isFolder
  /-- A name in the path, or the whole path, is too long. -/
  | nameTooLong
  /-- The host does not allow it. -/
  | denied
  /-- A reason of the host's own. -/
  | other (text : String)
  /-- The bytes are no text. -/
  | notText
deriving DecidableEq, Repr

/-- The error as it is shown. -/
def SourceError.message : SourceError → String
  | missing => "No such file or directory (os error 2)"
  | notFolder => "Not a directory (os error 20)"
  | isFolder => "Is a directory (os error 21)"
  | nameTooLong => "File name too long (os error 36)"
  | denied => "Permission denied (os error 13)"
  | other text => text
  | notText => "stream did not contain valid UTF-8"

/-- The text that bytes stand for. -/
def textOfBytes (bytes : ByteArray) : Except SourceError String :=
  match String.fromUTF8? bytes with
  | some text => .ok text
  | none => .error .notText

/-- The text of a file, given what comes of reading its bytes. -/
def textOfFile (bytes : Except SourceError ByteArray) : Except SourceError String :=
  bytes.bind textOfBytes

end PocketShell
