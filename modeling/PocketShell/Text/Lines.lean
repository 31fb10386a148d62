set_option autoImplicit false

/-! # Lines of a text

A line ends at a line feed, together with a carriage return right before it. What follows
the last line feed is a line of its own unless it is empty. A carriage return elsewhere is
an ordinary character.
-/

namespace PocketShell.Text

/-- Drops one carriage return from the end of a line given back to front. -/
def dropReturn : List Char → List Char
  | '\r' :: line => line
  | line => line

/-- The lines of a text, after the part `current` of the first line that has been read
already, back to front. -/
def linesFrom (current : List Char) : List Char → List (List Char)
  | [] => if current.isEmpty then [] else [current.reverse]
  | c :: cs =>
      if c = '\n' then (dropReturn current).reverse :: linesFrom [] cs
      else linesFrom (c :: current) cs

/-- The lines of a text, without their line ends. -/
def lines (s : String) : List String := (linesFrom [] s.toList).map String.ofList

end PocketShell.Text
