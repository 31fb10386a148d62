set_option autoImplicit false

/-! # Columns

Texts filled up to a width, counted in characters. A text that is already wider is left as
it is.
-/

namespace PocketShell.Text

/-- `s` filled up with blanks on the left to `width` characters. -/
def alignRight (width : Nat) (s : String) : String :=
  String.ofList (List.replicate (width - s.toList.length) ' ' ++ s.toList)

/-- `s` filled up with blanks on the right to `width` characters. -/
def alignLeft (width : Nat) (s : String) : String :=
  String.ofList (s.toList ++ List.replicate (width - s.toList.length) ' ')

/-- The decimal digits of `n`, filled up with zeros on the left to `width` digits. -/
def zeroFilled (width n : Nat) : String :=
  let digits := (toString n).toList
  String.ofList (List.replicate (width - digits.length) '0' ++ digits)

/-- A count and its noun: `one` for exactly one thing, `many` for any other number. -/
def counted (n : Nat) (one many : String) : String :=
  if n = 1 then s!"{n} {one}" else s!"{n} {many}"

end PocketShell.Text
