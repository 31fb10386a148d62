set_option autoImplicit false

/-! # Finding text in text

Whether one text occurs in another, and cutting a text at the first occurrence of a
character. The functions work on lists of characters; `startsWith` and `contains` are the
same on strings.
-/

namespace PocketShell.Text

/-- Whether `needle` stands somewhere in the text. -/
def occursIn (needle : List Char) : List Char → Bool
  | [] => needle.isEmpty
  | c :: cs => needle.isPrefixOf (c :: cs) || occursIn needle cs

/-- Whether `needle` stands somewhere in `s`. The empty text stands everywhere. -/
def contains (s needle : String) : Bool := occursIn needle.toList s.toList

/-- Whether `s` begins with `start`. -/
def startsWith (s start : String) : Bool := start.toList.isPrefixOf s.toList

/-- The text before and after the first `mark`; `none` if the text holds no `mark`. -/
def cut? (mark : Char) : List Char → Option (List Char × List Char)
  | [] => none
  | c :: cs =>
      if c = mark then some ([], cs)
      else (cut? mark cs).map fun (before, after) => (c :: before, after)

/-- The pieces of a text between the occurrences of `mark`: always at least one, and one
more than there are marks. -/
def split (mark : Char) : List Char → List (List Char)
  | [] => [[]]
  | c :: cs =>
      if c = mark then [] :: split mark cs
      else
        match split mark cs with
        | [] => [[c]]
        | piece :: pieces => (c :: piece) :: pieces

/-- The parts written one after the other with `between` between two of them. -/
def join (between : String) : List String → String
  | [] => ""
  | [s] => s
  | s :: rest => s ++ between ++ join between rest

end PocketShell.Text
