set_option autoImplicit false

/-! # White space

White space is what Unicode calls `White_Space`: twenty-five characters, the ASCII blanks
among them. Words are separated by it, and texts are trimmed of it at both ends.
-/

namespace PocketShell.Text

/-- The characters with the Unicode property `White_Space`. -/
def isBlank (c : Char) : Bool :=
  let n := c.toNat
  (9 ≤ n && n ≤ 13) || n == 0x20 || n == 0x85 || n == 0xA0 || n == 0x1680 ||
    (0x2000 ≤ n && n ≤ 0x200A) || n == 0x2028 || n == 0x2029 || n == 0x202F ||
    n == 0x205F || n == 0x3000

/-- The text without the white space at its ends. -/
def trimChars (cs : List Char) : List Char :=
  ((cs.dropWhile isBlank).reverse.dropWhile isBlank).reverse

/-- The text without the white space at its ends. -/
def trim (s : String) : String := String.ofList (trimChars s.toList)

/-- The number of runs of characters other than white space. `inside` tells whether the
character before the text belongs to such a run, which is then not counted again. -/
def countRuns (inside : Bool) : List Char → Nat
  | [] => 0
  | c :: cs =>
      if isBlank c then countRuns false cs
      else (if inside then 0 else 1) + countRuns true cs

/-- The number of words of a text, words being separated by white space. -/
def countWords (s : String) : Nat := countRuns false s.toList

end PocketShell.Text
