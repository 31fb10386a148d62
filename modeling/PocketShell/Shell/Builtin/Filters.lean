import PocketShell.Shell.Basic
import PocketShell.Text.Blank
import PocketShell.Text.Column
import PocketShell.Text.Lowercase

set_option autoImplicit false

/-! # Filters

`grep`, `head` and `wc` work on the lines of a file, or on those that they receive from the
command before them in a pipeline.
-/

namespace PocketShell.Builtin

open ShellM

/-! ## Selecting lines -/

/-- What `grep` selects. -/
structure Selection where
  pattern : String
  /-- Compare in lower case. -/
  ignoreCase : Bool := false
  /-- Select the lines without the pattern. -/
  invert : Bool := false
deriving DecidableEq, Repr

namespace Selection

/-- Whether the pattern stands in a line. -/
def hits (selection : Selection) (line : String) : Bool :=
  if selection.ignoreCase then
    Text.contains (Text.lower line) (Text.lower selection.pattern)
  else Text.contains line selection.pattern

/-- Whether a line is selected. -/
def selects (selection : Selection) (line : String) : Bool :=
  selection.hits line != selection.invert

/-- The selected lines with their numbers, counted from `first`. -/
def numbered (selection : Selection) (first : Nat) : List String → List (Nat × String)
  | [] => []
  | line :: rest =>
      if selection.selects line then (first, line) :: selection.numbered (first + 1) rest
      else selection.numbered (first + 1) rest

/-- What `grep` shows: the number of selected lines, or the lines, with their numbers if
asked for. -/
def output (selection : Selection) (count numbers : Bool) (input : List String) :
    List String :=
  let selected := selection.numbered 1 input
  if count then [toString selected.length]
  else if numbers then selected.map fun (number, line) => s!"{number}:{line}"
  else selected.map Prod.snd

end Selection

/-- What is known about `grep` itself. -/
def grepDescription : Description where
  name := "grep"
  summary := "Print lines containing a pattern"
  usage := "grep [-ivnc] <pattern> [file]"
  category := "text"
  flags := [
    { name := "-i", help := "ignore case" },
    { name := "-v", help := "select non-matching lines" },
    { name := "-n", help := "prefix line numbers" },
    { name := "-c", help := "print only a count" }]
  examples := ["grep -n rust /about.md", "ls | grep .md"]
  requiresArgs := true

/-- Selects lines. -/
def grep : Command Handler where
  description := grepDescription
  action inv := do
    let pattern ← orUsage grepDescription (inv.arg? 0)
    let selection : Selection := {
      pattern
      ignoreCase := inv.hasFlag "i"
      invert := inv.hasFlag "v" }
    let input ← readInput "grep" (inv.arg? 1)
    return .lines (selection.output (inv.hasFlag "c") (inv.hasFlag "n") input)

/-! ## The first lines -/

/-- The number of lines and the file that `head` is asked for, read from its words. The last
of several counts. -/
def headOf (count : Nat) (file : Option String) : List String → ShellM (Nat × Option String)
  | [] => return (count, file)
  | ["-n"] => do
      let count ← readCount "head" none
      return (count, file)
  | "-n" :: word :: rest => do
      let count ← readCount "head" (some word)
      headOf count file rest
  | word :: rest =>
      match word.toList with
      | '-' :: c :: digits => do
          if c.isDigit then
            let count ← readCount "head" (some (String.ofList (c :: digits)))
            headOf count file rest
          else headOf count (some word) rest
      | _ => headOf count (some word) rest

/-- Shows the first lines, ten unless a number is given. -/
def head : Command Handler where
  description := {
    name := "head"
    summary := "Show the first lines of input"
    usage := "head [-n N | -N] [file]"
    category := "text" }
  action inv := do
    let (count, file) ← headOf 10 none inv.words
    return .lines ((← readInput "head" file).take count)

/-! ## Counting -/

/-- The number of bytes of some lines, one more for the end of each line. -/
def byteCount (lines : List String) : Nat :=
  lines.foldr (fun line count => line.utf8ByteSize + 1 + count) 0

/-- The number of words of some lines. -/
def wordCount (lines : List String) : Nat :=
  lines.foldr (fun line count => Text.countWords line + count) 0

/-- Shows the numbers of lines, words and bytes, or one of them. -/
def wc : Command Handler where
  description := {
    name := "wc"
    summary := "Count lines, words, and bytes"
    usage := "wc [-l|-w|-c] [file]"
    category := "text" }
  action inv := do
    let input ← readInput "wc" (inv.arg? 0)
    let lines := toString input.length
    let words := toString (wordCount input)
    let bytes := toString (byteCount input)
    return .line <|
      if inv.hasFlag "l" then lines
      else if inv.hasFlag "w" then words
      else if inv.hasFlag "c" then bytes
      else s!"{Text.alignRight 7 lines} {Text.alignRight 7 words} {Text.alignRight 7 bytes}"

/-- The filters. -/
def filterCommands : List (Command Handler) := [grep, head, wc]

end PocketShell.Builtin
