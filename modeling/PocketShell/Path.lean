import PocketShell.Text.Search

set_option autoImplicit false

/-! # Absolute paths

A path of the file tree is canonical: it is `/`, or it is a `/` before each of one or more
segments, none of which is empty, `.` or `..`. The file holds the normal form of any text
read as a path, the resolution of what a user types against a working directory, and the
parent, last segment and extension of a path.
-/

namespace PocketShell.Path

/-- The path of the root folder. -/
def root : String := "/"

/-! ## Normal form -/

/-- One step down a path: an empty segment and `.` stay, `..` goes back to the enclosing
folder, and any other segment enters it. The segments entered are kept innermost first;
at the root `..` stays too, so no path leaves the tree. -/
def enter (entered : List (List Char)) (segment : List Char) : List (List Char) :=
  if segment = [] ∨ segment = ['.'] then entered
  else if segment = ['.', '.'] then entered.tail
  else segment :: entered

/-- The segments of the place that a text leads to from the root. -/
def segments (cs : List Char) : List (List Char) :=
  ((Text.split '/' cs).foldl enter []).reverse

/-- The path with the given segments. -/
def ofSegments : List (List Char) → String
  | [] => root
  | segs => String.ofList (segs.flatMap ('/' :: ·))

/-- The canonical path that a text leads to from the root. -/
def normalize (path : String) : String := ofSegments (segments path.toList)

/-- The place that `input` names for someone working in the folder `cwd`. `~` stands for
the root when it is the whole input or its first segment; an input that starts with `/`
starts at the root as well. -/
def resolve (cwd input : String) : String :=
  if input = "~" then root
  else
    match input.toList with
    | '~' :: '/' :: rest => ofSegments (segments rest)
    | '/' :: rest => ofSegments (segments ('/' :: rest))
    | relative => ofSegments (segments (cwd.toList ++ '/' :: relative))

/-! ## Parts of a path -/

/-- The folder that holds the path. The root is its own parent. -/
def parent (path : String) : String :=
  match path.toList.reverse.dropWhile (· ≠ '/') with
  | [] | ['/'] => root
  | _ :: before => String.ofList before.reverse

/-- The last segment of the path, empty for the root. -/
def fileName (path : String) : String :=
  String.ofList (path.toList.reverse.takeWhile (· ≠ '/')).reverse

/-- The text with which every path below the folder `dir` starts. -/
def below (dir : String) : String := if dir = root then root else dir ++ "/"

/-- The path of the child `name` of the folder `dir`. -/
def child (dir name : String) : String := below dir ++ name

/-- Whether a text can be the name of a node: it is not empty, holds no `/`, and is neither
`.` nor `..`. -/
def isName (name : String) : Bool :=
  name ≠ "" && !name.toList.contains '/' && name ≠ "." && name ≠ ".."

end PocketShell.Path
