import PocketShell.ByteSize
import Mathlib.Tactic
import Std.Data.String.ToNat

set_option autoImplicit false

/-! # Numbers and their units

The unit of a size is chosen before the number is rounded. A count of bytes may then be fewer than
1024 of its unit and still be rounded to 1024 (`OverflowsUnit`). These counts lie right below the
units `M`, `G` and `T`, and they are the only ones whose number is above 1023 in a unit other than
the last (`humanSize_number`).

From 2⁵³ bytes on the count is rounded to 53 binary digits first. This changes no unit, since
these counts are far beyond the last one (`significant_lt_iff`).
-/

namespace PocketShell.ByteSize

/-! ## Rounding -/

theorem le_roundToMultiple (m n : Nat) : n / m * m ≤ roundToMultiple m n := by
  rw [roundToMultiple]
  split_ifs
  · exact le_rfl
  · exact Nat.mul_le_mul_right m (Nat.le_succ _)

theorem significant_eq {n : Nat} (h : n < 2 ^ 53) : significant n = n := if_pos h

/-- A number of more than 53 digits keeps its first digit. -/
theorem le_significant {n : Nat} (h : 2 ^ 53 ≤ n) : 2 ^ 53 ≤ significant n := by
  have hpos : n ≠ 0 := by omega
  have hlog : 53 ≤ n.log2 := (Nat.le_log2 hpos).mpr h
  have hsplit : 2 ^ 52 * 2 ^ (n.log2 - 52) = 2 ^ n.log2 := by
    rw [← pow_add]
    congr 1
    omega
  rw [significant, if_neg (by omega)]
  calc 2 ^ 53 ≤ 2 ^ n.log2 := Nat.pow_le_pow_right (by decide) hlog
    _ = 2 ^ 52 * 2 ^ (n.log2 - 52) := hsplit.symm
    _ ≤ n / 2 ^ (n.log2 - 52) * 2 ^ (n.log2 - 52) := by
        refine Nat.mul_le_mul_right _ ((Nat.le_div_iff_mul_le (by positivity)).mpr ?_)
        rw [hsplit]
        exact Nat.log2_self_le hpos
    _ ≤ roundToMultiple (2 ^ (n.log2 - 52)) n := le_roundToMultiple _ n

/-- **The first rounding does not cross a bound** of at most 53 digits. -/
theorem significant_lt_iff {n bound : Nat} (h : bound ≤ 2 ^ 53) :
    significant n < bound ↔ n < bound := by
  by_cases hn : n < 2 ^ 53
  · rw [significant_eq hn]
  · have hle := le_significant (not_lt.mp hn)
    omega

/-- **The nearest integer is at most `k`** for what is less than half above it. -/
theorem roundQuotient_le_iff {n m k : Nat} (hm : 0 < m) :
    roundQuotient n m ≤ k ↔ 2 * n < (2 * k + 1) * m := by
  have hmul : (k + 1) * (2 * m) = (2 * k + 1) * m + m := by ring
  rw [roundQuotient, ← Nat.lt_succ_iff, Nat.div_lt_iff_lt_mul (by omega), Nat.succ_eq_add_one, hmul]
  omega

/-! ## The unit -/

/-- **The unit is the first in which there are fewer than 1024**, and the last if there is none. -/
theorem unitFrom_spec (n scale : Nat) {names : List String} (hne : names ≠ []) :
    ∃ k, ∃ h : k < names.length, unitFrom n scale names = (1024 ^ k * scale, names[k]) ∧
      (k + 1 < names.length → n < 1024 ^ (k + 1) * scale) ∧ (0 < k → 1024 ^ k * scale ≤ n) := by
  fun_induction unitFrom n scale names with
  | case1 scale => exact absurd rfl hne
  | case2 scale name => exact ⟨0, by simp⟩
  | case3 scale name larger hlarger hlt => exact ⟨0, by simp, by simp, by simp [hlt], by simp⟩
  | case4 scale name larger hlarger hlt ih =>
      obtain ⟨k, hk, heq, hbelow, habove⟩ := ih hlarger
      have hpow : ∀ j, 1024 ^ (j + 1) * scale = 1024 ^ j * (1024 * scale) := fun j => by ring
      refine ⟨k + 1, Nat.succ_lt_succ hk, ?_, fun hlast => ?_, fun _ => ?_⟩
      · rw [heq, hpow, List.getElem_cons_succ]
      · rw [hpow]
        exact hbelow (Nat.lt_of_succ_lt_succ hlast)
      · rw [hpow]
        rcases Nat.eq_zero_or_pos k with rfl | hpos
        · simpa using not_lt.mp hlt
        · exact habove hpos

/-- **What is shown**, with the bounds that the unit sets to the number of bytes. -/
theorem humanSize_eq (bytes : Nat) :
    ∃ k, ∃ h : k < units.length,
      humanSize bytes = s!"{roundQuotient (significant bytes) (1024 ^ k)}{units[k]}" ∧
        (k + 1 < units.length → bytes < 1024 ^ (k + 1)) ∧
        (0 < k → 1024 ^ k ≤ significant bytes) := by
  obtain ⟨k, hk, heq, hbelow, habove⟩ :=
    unitFrom_spec (significant bytes) 1 (List.cons_ne_nil "B" ["K", "M", "G", "T"])
  rw [mul_one] at heq hbelow habove
  have hunit : unitFrom (significant bytes) 1 units = (1024 ^ k, units[k]) := heq
  refine ⟨k, hk, ?_, fun hlast => ?_, habove⟩
  · rw [humanSize, hunit]
  · have hbound : 1024 ^ (k + 1) ≤ 2 ^ 53 :=
      (Nat.pow_le_pow_right (by decide) (Nat.le_of_lt_succ hlast)).trans (by decide)
    exact (significant_lt_iff hbound).mp (hbelow hlast)

/-! ## The text -/

/-- The number and the unit can be read off. -/
def ShownAs (bytes number : Nat) (unit : String) : Prop :=
  unit ∈ units ∧ humanSize bytes = s!"{number}{unit}"

/-- **A size is shown as one number in one unit**: each unit is a single character. -/
theorem ShownAs.unique {bytes number other : Nat} {unit unit' : String}
    (h : ShownAs bytes number unit) (h' : ShownAs bytes other unit') :
    other = number ∧ unit' = unit := by
  have hlength : ∀ unit ∈ units, unit.toList.length = 1 := by decide
  have htext := congrArg String.toList (h'.2.symm.trans h.2)
  rw [String.toList_append, String.toList_append] at htext
  obtain ⟨hnumber, hunit⟩ :=
    List.append_inj' htext ((hlength _ h'.1).trans (hlength _ h.1).symm)
  exact ⟨Nat.repr_injective (String.toList_inj.mp hnumber), String.toList_inj.mp hunit⟩

/-! ## Numbers above 1023 -/

/-- Whether a count of bytes is less than 1024 of one of the units `K`, `M` and `G`, and by no more
than half of this unit. -/
def OverflowsUnit (bytes : Nat) : Prop :=
  ∃ scale ∈ [1024, 1024 ^ 2, 1024 ^ 3], 2047 * scale ≤ 2 * bytes ∧ bytes < 1024 * scale

instance (bytes : Nat) : Decidable (OverflowsUnit bytes) :=
  inferInstanceAs (Decidable (∃ scale ∈ _, _ ∧ _))

/-- **Which counts overflow their unit**, the unit being one below the last. -/
theorem overflowsUnit_iff {bytes k : Nat} (hk : k < 4) (hbelow : bytes < 1024 ^ (k + 1))
    (habove : 0 < k → 1024 ^ k ≤ bytes) :
    OverflowsUnit bytes ↔ 0 < k ∧ 2047 * 1024 ^ k ≤ 2 * bytes := by
  simp only [OverflowsUnit, List.mem_cons, List.not_mem_nil, or_false, exists_eq_or_imp,
    exists_eq_left]
  -- the four units are powers of 1024, and the count lies between two of them
  interval_cases k <;> omega

theorem lt_of_overflowsUnit {bytes : Nat} (h : OverflowsUnit bytes) : bytes < 1024 ^ 4 := by
  obtain ⟨scale, hscale, -, hlt⟩ := h
  have hle : ∀ scale ∈ [1024, 1024 ^ 2, 1024 ^ 3], 1024 * scale ≤ 1024 ^ 4 := by decide
  exact hlt.trans_le (hle scale hscale)

/-- The first unit and the last one are told by their names. -/
theorem units_eq_iff : ∀ k, ∀ h : k < units.length,
    (units[k] = "B" ↔ k = 0) ∧ (units[k] = "T" ↔ k = 4) := by decide

/-- **The number of a size.** It is not 0 unless the unit is `B`. In a unit other than `T` it is at
most 1023, unless the count overflows its unit: then it is 1024. -/
theorem humanSize_number (bytes : Nat) :
    ∃ number unit, ShownAs bytes number unit ∧
      (∀ other unit', ShownAs bytes other unit' → other = number ∧ unit' = unit) ∧
      (unit ≠ "B" → 1 ≤ number) ∧ (unit ≠ "T" → (number ≤ 1023 ↔ ¬ OverflowsUnit bytes)) ∧
      (OverflowsUnit bytes → number = 1024 ∧ unit ≠ "B" ∧ unit ≠ "T") := by
  obtain ⟨k, hk, hshown, hbelow, habove⟩ := humanSize_eq bytes
  have hshownAs : ShownAs bytes _ units[k] := ⟨List.getElem_mem hk, hshown⟩
  have hlength : k < 5 := hk
  obtain ⟨hfirst, hlast⟩ := units_eq_iff k hk
  -- below the last unit nothing is rounded before the division
  have hsmall : k < 4 → bytes < 1024 ^ (k + 1) ∧ significant bytes = bytes := by
    intro hk4
    have hlt := hbelow (Nat.succ_lt_succ hk4)
    have hbound : 1024 ^ (k + 1) ≤ 2 ^ 53 :=
      (Nat.pow_le_pow_right (by decide) hk4).trans (by decide)
    exact ⟨hlt, significant_eq (hlt.trans_le hbound)⟩
  have hround : ∀ j, roundQuotient (significant bytes) (1024 ^ k) ≤ j ↔
      2 * significant bytes < (2 * j + 1) * 1024 ^ k :=
    fun j => roundQuotient_le_iff (by positivity)
  refine ⟨_, _, hshownAs, fun _ _ => hshownAs.unique, fun hB => ?_, fun hT => ?_, fun hover => ?_⟩
  · have hle := habove (Nat.pos_of_ne_zero fun h => hB (hfirst.mpr h))
    by_contra hzero
    have hlt := (hround 0).mp (by omega)
    omega
  · have hk4 : k < 4 := by
      have hne : k ≠ 4 := fun h => hT (hlast.mpr h)
      omega
    obtain ⟨hlt, heq⟩ := hsmall hk4
    rw [hround, heq, overflowsUnit_iff hk4 hlt (heq ▸ habove)]
    rcases Nat.eq_zero_or_pos k with rfl | hpos
    · omega
    · omega
  · have hk4 : k < 4 := by
      by_contra hno
      have hle := habove (by omega)
      have hlt := (significant_lt_iff (by decide)).mpr (lt_of_overflowsUnit hover)
      have hpow : 1024 ^ 4 ≤ 1024 ^ k := Nat.pow_le_pow_right (by decide) (not_lt.mp hno)
      omega
    obtain ⟨hlt, heq⟩ := hsmall hk4
    obtain ⟨hpos, hhalf⟩ := (overflowsUnit_iff hk4 hlt (heq ▸ habove)).mp hover
    rw [pow_succ'] at hlt
    have hupper := (hround 1024).mpr (by omega)
    have hlower := mt (hround 1023).mp (by omega)
    exact ⟨by omega, fun h => hpos.ne' (hfirst.mp h), fun h => hk4.ne (hlast.mp h)⟩

/-- One byte less than a mebibyte is shown as 1024 of the unit below. -/
theorem humanSize_below_mebibyte :
    humanSize 1048575 = "1024K" ∧
      ¬ ∀ number unit, ShownAs 1048575 number unit → unit ≠ "T" → number ≤ 1023 := by
  have hshown : humanSize 1048575 = "1024K" := by decide +kernel
  refine ⟨hshown, fun hbelow => ?_⟩
  have hnumber : 1024 ≤ 1023 := hbelow 1024 "K" ⟨by decide, hshown⟩ (by decide)
  omega

end PocketShell.ByteSize
