import PocketShell.Text.CaseTable

set_option autoImplicit false

/-! # Lowercase text

The lowercase form of a text in Unicode. Nearly every character is replaced on its own, by
its lowercase letter if it has one. Two are special: a capital I with a dot becomes an `i`
and a combining dot, and a capital sigma becomes the final form of the letter at the end of
a word and the common form elsewhere.
-/

namespace PocketShell.Text

/-- Whether a code point lies in one of the runs. -/
def inRuns (runs : List (Nat × Nat)) (point : Nat) : Bool :=
  runs.any fun run => run.1 ≤ point && point ≤ run.2

/-- Whether the character is passed over in the search for a neighbour with letter case. -/
def isCaseIgnorable (c : Char) : Bool := inRuns ignorableRuns c.toNat

/-- Whether the character has letter case and is not passed over. -/
def isCased (c : Char) : Bool := inRuns casedRuns c.toNat

/-- Whether the first character that is not passed over has letter case. -/
def meetsCased (cs : List Char) : Bool :=
  ((cs.dropWhile isCaseIgnorable).head?.map isCased).getD false

/-- The lowercase letter of a character, the character itself if it has none. -/
def lowerChar (c : Char) : Char :=
  if c.toNat < 0x80 then c.toLower
  else
    match caseRuns.find? fun run =>
        run.first ≤ c.toNat && c.toNat ≤ run.last && (c.toNat - run.first) % run.step == 0 with
    | some run => Char.ofNat (c.toNat + run.distance).toNat
    | none => c

/-- The capital letter sigma. -/
def capitalSigma : Char := '\u03A3'

/-- The lowercase form of a text; `before` is the text before it, back to front. A sigma
ends a word if a character with letter case precedes it and none follows. -/
def lowerFrom (before : List Char) : List Char → List Char
  | [] => []
  | c :: cs =>
      (if c = capitalSigma then
          [if meetsCased before && !meetsCased cs then '\u03C2' else '\u03C3']
        else if c = '\u0130' then ['i', '\u0307']
        else [lowerChar c]) ++ lowerFrom (c :: before) cs

/-- The lowercase form of a text. -/
def lower (s : String) : String := String.ofList (lowerFrom [] s.toList)

end PocketShell.Text
