import PocketShell.CommandLine.Marking
import PocketShell.Text.Blank

set_option autoImplicit false

/-! # Words of a command

Free white space separates words. Quote marks are dropped, and so is a backslash in front
of `n`, `t`, a backslash or a quote mark: the first two then stand for a line feed and a
tab, the others for themselves. In front of any other character, and at the end of the
text, a backslash stands for itself. A quotation that is not closed reaches to the end of
the text. There are no empty words.

A text is first turned into `cells`: a character of a word, or a gap between words. The
words are the runs of characters between the gaps.
-/

namespace PocketShell.CommandLine

/-- What a backslash and the character `c` stand for. -/
def unescape (c : Char) : List Char :=
  if c = 'n' then ['\n']
  else if c = 't' then ['\t']
  else if c = '\\' || isQuote c then [c]
  else ['\\', c]

/-- What the character `c` adds to a word. A backslash adds nothing until its character
comes; a quote mark adds itself only where another mark has opened the quotation. -/
def Mode.adds (m : Mode) (c : Char) : List Char :=
  if m.escaped then unescape c
  else if c = '\\' then []
  else if isQuote c then (if m.quote.all (· == c) then [] else [c])
  else [c]

/-- The cells of a text: `some c` for a character of a word, `none` for a gap. -/
def cells (m : Mode) : List Char → List (Option Char)
  | [] => if m.escaped then [some '\\'] else []
  | c :: cs =>
      (if m.isFree c && Text.isBlank c then [none] else (m.adds c).map some) ++
        cells (m.step c) cs

/-- The runs of characters between the gaps, empty runs included. -/
def runs : List (Option Char) → List (List Char)
  | [] => [[]]
  | none :: rest => [] :: runs rest
  | some c :: rest =>
      match runs rest with
      | [] => [[c]]
      | run :: more => (c :: run) :: more

/-- The words of a text. -/
def wordsOf (cs : List Char) : List (List Char) := (runs (cells {} cs)).filter (· ≠ [])

/-- The words of a text. -/
def words (text : String) : List String := (wordsOf text.toList).map String.ofList

end PocketShell.CommandLine
