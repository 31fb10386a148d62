import PocketShell.Calendar
import PocketShell.Proofs.ByteSize
import PocketShell.Text.Blank
import PocketShell.Text.Column
import PocketShell.Text.Lines
import PocketShell.Text.Search
import Mathlib.Tactic

set_option autoImplicit false

/-! # Texts of one line

A text is rendered as one line if it holds no line feed (`Text.IsLine`). Putting such texts together
gives such a text, and so do the ways in which numbers, columns and dates are written. The lines of
any text are texts of one line (`isLine_of_mem_lines`).
-/

namespace PocketShell

namespace Text

/-- The text is one line: it holds no line feed. -/
def IsLine (s : String) : Prop := '\n' ∉ s.toList

instance (s : String) : Decidable (IsLine s) := inferInstanceAs (Decidable ('\n' ∉ s.toList))

theorem isLine_ofList {cs : List Char} : IsLine (String.ofList cs) ↔ '\n' ∉ cs := by
  rw [IsLine, String.toList_ofList]

/-- A text with no other characters than a line is a line. -/
theorem IsLine.of_subset {s t : String} (h : IsLine s) (hsub : t.toList ⊆ s.toList) : IsLine t :=
  fun hmem => h (hsub hmem)

/-- A line feed is written as one byte, so a text without this byte is a line. -/
theorem isLine_of_bytes {s : String} (h : 10 ∉ s.toByteArray.data.toList) : IsLine s := by
  intro hmem
  refine h ?_
  rw [← String.utf8Encode_toList]
  simp only [List.utf8Encode, List.data_toByteArray, List.mem_flatMap]
  exact ⟨'\n', hmem, by decide⟩

/-! ## Putting texts together -/

@[simp] theorem isLine_append (s t : String) : IsLine (s ++ t) ↔ IsLine s ∧ IsLine t := by
  rw [IsLine, String.toList_append, List.mem_append, not_or]
  rfl

/-- A text in another stands for itself. -/
@[simp] theorem isLine_toString (s : String) : IsLine (toString s) ↔ IsLine s := Iff.rfl

@[simp] theorem isLine_repr (n : Nat) : IsLine n.repr := by
  intro hmem
  rw [Nat.toList_repr] at hmem
  have hdigit := Nat.isDigit_of_mem_toDigits (by decide) (by decide) hmem
  exact absurd hdigit (by decide)

theorem isLine_join {between : String} (hbetween : IsLine between) {parts : List String}
    (h : ∀ part ∈ parts, IsLine part) : IsLine (join between parts) := by
  fun_induction join between parts with
  | case1 => decide
  | case2 part => exact h part List.mem_cons_self
  | case3 part rest _ ih =>
      obtain ⟨hpart, hrest⟩ := List.forall_mem_cons.mp h
      simp only [isLine_append]
      exact ⟨⟨hpart, hbetween⟩, ih hrest⟩

/-! ## Columns -/

@[simp] theorem isLine_alignRight (width : Nat) (s : String) :
    IsLine (alignRight width s) ↔ IsLine s := by
  rw [alignRight, isLine_ofList, List.mem_append, not_or, IsLine]
  simp

@[simp] theorem isLine_alignLeft (width : Nat) (s : String) :
    IsLine (alignLeft width s) ↔ IsLine s := by
  rw [alignLeft, isLine_ofList, List.mem_append, not_or, IsLine]
  simp

@[simp] theorem isLine_zeroFilled (width n : Nat) : IsLine (zeroFilled width n) := by
  rw [zeroFilled, isLine_ofList, List.mem_append, not_or]
  exact ⟨by simp, isLine_repr n⟩

theorem isLine_counted (n : Nat) {one many : String} (hone : IsLine one) (hmany : IsLine many) :
    IsLine (counted n one many) := by
  rw [counted]
  split_ifs
  · simp +decide [hone]
  · simp +decide [hmany]

/-! ## The lines of a text -/

theorem dropReturn_subset (line : List Char) : dropReturn line ⊆ line := by
  unfold dropReturn
  split
  · exact List.subset_cons_self _ _
  · exact List.Subset.refl _

theorem not_mem_of_mem_linesFrom {current : List Char} (hcurrent : '\n' ∉ current)
    {cs line : List Char} (h : line ∈ linesFrom current cs) : '\n' ∉ line := by
  induction cs generalizing current with
  | nil =>
      rw [linesFrom] at h
      split_ifs at h
      · cases h
      · obtain rfl := List.mem_singleton.mp h
        rwa [List.mem_reverse]
  | cons c cs ih =>
      rw [linesFrom] at h
      split_ifs at h with hfeed
      · rcases List.mem_cons.mp h with rfl | h
        · rw [List.mem_reverse]
          exact fun hmem => hcurrent (dropReturn_subset _ hmem)
        · exact ih List.not_mem_nil h
      · refine ih (fun hmem => ?_) h
        rcases List.mem_cons.mp hmem with heq | hmem
        · exact hfeed heq.symm
        · exact hcurrent hmem

/-- **The lines of a text are texts of one line.** -/
theorem isLine_of_mem_lines {s line : String} (h : line ∈ lines s) : IsLine line := by
  obtain ⟨cs, hcs, rfl⟩ := List.mem_map.mp h
  rw [isLine_ofList]
  exact not_mem_of_mem_linesFrom List.not_mem_nil hcs

/-! ## Parts of a text -/

theorem trimChars_subset (cs : List Char) : trimChars cs ⊆ cs := by
  intro c hc
  rw [trimChars, List.mem_reverse] at hc
  have hc := (List.dropWhile_sublist _).subset hc
  rw [List.mem_reverse] at hc
  exact (List.dropWhile_sublist _).subset hc

theorem cut?_subset {mark : Char} {cs before after : List Char}
    (h : cut? mark cs = some (before, after)) : before ⊆ cs ∧ after ⊆ cs := by
  induction cs generalizing before with
  | nil => cases h
  | cons c cs ih =>
      rw [cut?] at h
      split_ifs at h
      · obtain ⟨rfl, rfl⟩ := Prod.mk.inj (Option.some.inj h)
        exact ⟨List.nil_subset _, List.subset_cons_self _ _⟩
      · obtain ⟨⟨first, rest⟩, hcut, heq⟩ := Option.map_eq_some_iff.mp h
        obtain ⟨rfl, rfl⟩ := Prod.mk.inj heq
        obtain ⟨hbefore, hafter⟩ := ih hcut
        have hmore := List.Subset.trans hafter (List.subset_cons_self c cs)
        exact ⟨List.cons_subset_cons c hbefore, hmore⟩

end Text

/-! ## Sizes and dates -/

theorem ByteSize.isLine_humanSize (bytes : Nat) : Text.IsLine (humanSize bytes) := by
  have hall : ∀ unit ∈ units, Text.IsLine unit := by decide
  obtain ⟨k, hk, hshown, -⟩ := humanSize_eq bytes
  have hunit : Text.IsLine units[k] := hall _ (List.getElem_mem hk)
  simp [hshown, hunit]

theorem Calendar.isLine_monthName (month : Nat) : Text.IsLine (monthName month) := by
  have hall : ∀ name ∈ monthNames, Text.IsLine name := by decide
  rw [monthName, List.getD_eq_getElem?_getD]
  cases hname : monthNames[month - 1]? with
  | none => decide
  | some name => exact hall name (List.mem_of_getElem? hname)

theorem Calendar.isLine_listingForm (seconds : Nat) : Text.IsLine (listingForm seconds) := by
  simp +decide [listingForm, isLine_monthName]

theorem Calendar.isLine_fullForm (seconds : Nat) : Text.IsLine (fullForm seconds) := by
  simp +decide [fullForm]

end PocketShell
