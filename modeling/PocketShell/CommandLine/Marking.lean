set_option autoImplicit false

/-! # Quotes and escapes

A command line is read from left to right. A quote mark opens a quotation, which the same
mark closes; a backslash takes the next character out of its usual role, inside a quotation
as well as outside. A character is *free* if it stands outside quotations, is not taken out
of its role, and is itself neither a quote mark nor a backslash: only free characters
separate words or act as operators.

The state of the reader is a `Mode`. The division of a line into commands and the division
of a command into words read the same state, so they cannot disagree about what is quoted.
-/

namespace PocketShell.CommandLine

/-- Whether the character is a quote mark: `"` or `'`. -/
def isQuote (c : Char) : Bool := c == '\x22' || c == '\x27'

/-- The state of the reader between two characters. -/
structure Mode where
  /-- The mark of the open quotation, if one is open. -/
  quote : Option Char := none
  /-- Whether the character before is a backslash that takes the next one out of its
  role. -/
  escaped : Bool := false
deriving DecidableEq, Repr

namespace Mode

/-- The open quotation after a quote mark. -/
def toggle (quote : Option Char) (mark : Char) : Option Char :=
  match quote with
  | none => some mark
  | some opened => if opened = mark then none else some opened

/-- The state after one more character. -/
def step (m : Mode) (c : Char) : Mode :=
  if m.escaped then { m with escaped := false }
  else if c = '\\' then { m with escaped := true }
  else if isQuote c then { m with quote := toggle m.quote c }
  else m

/-- The state after a text. -/
def after (m : Mode) (cs : List Char) : Mode := cs.foldl step m

/-- Whether the next character, if it is `c`, is free. -/
def isFree (m : Mode) (c : Char) : Bool :=
  !m.escaped && m.quote.isNone && c != '\\' && !isQuote c

/-- Whether nothing is open: no quotation, and no backslash that waits for its
character. -/
def isPlain (m : Mode) : Bool := !m.escaped && m.quote.isNone

end Mode

/-- Each character of a text together with whether it is free. -/
def marked (m : Mode) : List Char → List (Char × Bool)
  | [] => []
  | c :: cs => (c, m.isFree c) :: marked (m.step c) cs

end PocketShell.CommandLine
