import PocketShell.Text.Numeral
import Mathlib.Tactic

set_option autoImplicit false

/-! # Numbers are read back from their digits

The digits of a number are the ones of `Nat.toDigits`. A reader of numerals gets the number back
from them, however many zeros stand in front (`digits?_zeros`). -/

namespace PocketShell.Text

theorem all_isDigit_toDigits (n : Nat) : (Nat.toDigits 10 n).all isDigit = true := by
  rw [List.all_eq_true]
  intro c hc
  have hdigit := Nat.isDigit_of_mem_toDigits (by decide) (by decide) hc
  simpa [isDigit, Char.isDigit, Char.le_def] using hdigit

theorem digitsValue_eq (cs : List Char) : digitsValue cs = Nat.ofDigitChars 10 cs 0 := by
  rw [Nat.ofDigitChars_eq_foldl]
  rfl

/-- Zeros in front of a number count for nothing. -/
theorem digitsValue_zeros (zeros : Nat) (cs : List Char) :
    digitsValue (List.replicate zeros '0' ++ cs) = digitsValue cs := by
  induction zeros with
  | zero => rfl
  | succ zeros ih => exact ih

/-- **A number is read back from its digits**, also with zeros in front. -/
theorem digits?_zeros (zeros n : Nat) :
    digits? (List.replicate zeros '0' ++ Nat.toDigits 10 n) = some n := by
  have hne : Nat.toDigits 10 n ≠ [] := Nat.toDigits_ne_nil
  have hzeros : (List.replicate zeros '0').all isDigit = true := by
    rw [List.all_replicate]
    split_ifs <;> rfl
  rw [digits?, List.all_append, hzeros, all_isDigit_toDigits, digitsValue_zeros, digitsValue_eq,
    Nat.ofDigitChars_toDigits (by decide) (by decide)]
  simp [hne]

theorem digits?_toDigits (n : Nat) : digits? (Nat.toDigits 10 n) = some n := digits?_zeros 0 n

end PocketShell.Text
