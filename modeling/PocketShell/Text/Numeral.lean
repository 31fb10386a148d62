set_option autoImplicit false

/-! # Reading natural numbers

A numeral is one or more ASCII digits, with an optional `+` in front. A numeral whose value
is above the bound that the caller sets is refused: a count has to fit in a machine word.
-/

namespace PocketShell.Text

/-- The largest number of an unsigned 64-bit word. -/
def maxWord : Nat := 18446744073709551615

/-- The largest number of a byte. -/
def maxByte : Nat := 255

/-- Whether the character is one of `0` to `9`. -/
def isDigit (c : Char) : Bool := '0' ≤ c && c ≤ '9'

/-- The value of a digit. -/
def digitValue (c : Char) : Nat := c.toNat - '0'.toNat

/-- The value of a run of digits, most significant first. -/
def digitsValue (cs : List Char) : Nat := cs.foldl (fun n c => 10 * n + digitValue c) 0

/-- The value of a non-empty run of digits; `none` for any other text. -/
def digits? (cs : List Char) : Option Nat :=
  if !cs.isEmpty && cs.all isDigit then some (digitsValue cs) else none

/-- Drops a plus sign in front. -/
def dropPlus : List Char → List Char
  | '+' :: cs => cs
  | cs => cs

/-- The value of a numeral that is at most `bound`. -/
def numeral? (bound : Nat) (cs : List Char) : Option Nat :=
  (digits? (dropPlus cs)).filter (· ≤ bound)

/-- The value of a hexadecimal digit, in either letter case. -/
def hexDigit? (c : Char) : Option Nat :=
  if isDigit c then some (digitValue c)
  else if 'a' ≤ c && c ≤ 'f' then some (c.toNat - 'a'.toNat + 10)
  else if 'A' ≤ c && c ≤ 'F' then some (c.toNat - 'A'.toNat + 10)
  else none

/-- The value of hexadecimal digits, most significant first. -/
def hex? (cs : List Char) : Option Nat :=
  cs.foldlM (fun n c => (hexDigit? c).map (16 * n + ·)) 0

end PocketShell.Text
