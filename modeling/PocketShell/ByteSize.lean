set_option autoImplicit false

/-! # Sizes for readers

A number of bytes is shown in the unit `B`, `K`, `M`, `G` or `T`, each 1024 times the one
before. The unit is the first in which the number is below 1024, and the last if there is
none; the number is then rounded to the nearest integer, a half going up. Numbers above
2⁵³ are first rounded to 53 significant bits.
-/

namespace PocketShell.ByteSize

/-- `n` rounded to the nearest multiple of `m`, a tie going to the even multiple. -/
def roundToMultiple (m n : Nat) : Nat :=
  let q := n / m
  let r := 2 * (n % m)
  if r < m ∨ (r = m ∧ q % 2 = 0) then q * m else (q + 1) * m

/-- `n` rounded to 53 significant binary digits, a tie going to the even neighbour. -/
def significant (n : Nat) : Nat :=
  if n < 9007199254740992 then n else roundToMultiple (Nat.pow 2 (n.log2 - 52)) n

/-- The units, each 1024 times the one before. -/
def units : List String := ["B", "K", "M", "G", "T"]

/-- The first of the units from `scale` bytes on in which `n` is below 1024, with its
number of bytes; the last unit if there is no such unit. -/
def unitFrom (n scale : Nat) : List String → Nat × String
  | [] => (scale, "")
  | [name] => (scale, name)
  | name :: larger =>
      if n < 1024 * scale then (scale, name) else unitFrom n (1024 * scale) larger

/-- `n / m` rounded to the nearest integer, a half going up. -/
def roundQuotient (n m : Nat) : Nat := (2 * n + m) / (2 * m)

/-- A number of bytes in the unit that suits it: `1536` is `2K`. -/
def humanSize (bytes : Nat) : String :=
  let n := significant bytes
  let (scale, unit) := unitFrom n 1 units
  s!"{roundQuotient n scale}{unit}"

end PocketShell.ByteSize
