set_option autoImplicit false

/-! # Name patterns

In a pattern `*` stands for any run of characters, `?` for any one character, and every
other character for itself. Neither of the two stands for a line feed. A pattern has to
match the whole name.

A pattern is matched against all suffixes of the name at once: `rowOf p name` tells for
each suffix of `name`, longest first, whether the rest `p` of the pattern matches it. Each
pattern character turns the row of the rest into its own row in one pass, so matching
takes time in proportion to the product of the two lengths.
-/

namespace PocketShell

/-- A name pattern. -/
structure Glob where
  /-- The pattern as written. -/
  pattern : String
deriving DecidableEq

namespace Glob

/-- The row of a pattern that has run out: only the empty suffix is matched. -/
def emptyRow : List Char → List Bool
  | [] => [true]
  | _ :: cs => false :: emptyRow cs

/-- The row of `*` followed by a pattern with the row `rest`: either the run ends here, or
it takes the next character, which is no line feed. -/
def starRow : List Char → List Bool → List Bool
  | c :: cs, here :: rest =>
      let row := starRow cs rest
      (here || (c != '\n' && row.headD false)) :: row
  | _, rest => rest

/-- The row of one character with the class `takes`, followed by a pattern with the row
`rest`. -/
def charRow (takes : Char → Bool) : List Char → List Bool → List Bool
  | c :: cs, _ :: rest => (takes c && rest.headD false) :: charRow takes cs rest
  | _, _ => [false]

/-- The row of a pattern that starts with `p` and continues with the row `rest`. -/
def rowOfChar (name : List Char) (p : Char) (rest : List Bool) : List Bool :=
  if p = '*' then starRow name rest
  else if p = '?' then charRow (· != '\n') name rest
  else charRow (· == p) name rest

/-- For each suffix of the name, longest first, whether the pattern matches it. -/
def rowOf (pattern name : List Char) : List Bool :=
  pattern.foldr (rowOfChar name) (emptyRow name)

/-- Whether the pattern matches the whole name. -/
def accepts (g : Glob) (name : String) : Bool :=
  (rowOf g.pattern.toList name.toList).headD false

end Glob

end PocketShell
