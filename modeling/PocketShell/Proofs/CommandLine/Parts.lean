import PocketShell.Proofs.CommandLine.Chaining

set_option autoImplicit false

/-! # The parts of a chain

A line is divided at its free separators. What the division finds is described as for the stages
of a pipeline: no separator is free in any part, and each part but the last ends where nothing is
open (`Parts`, `parts_splitChain`). With the separators between them the parts make up the line
(`splitChain_eq`).

The segments of a chain are its parts without the white space at their ends, as far as something
is left. Trimming can take away the character that a backslash waits for, but closes no quotation
and opens none: each segment but the last ends outside quotations (`segmented_segmentTexts`).
-/

namespace PocketShell.CommandLine

open PocketShell.Text (isBlank trimChars trailing)

/-! ## Texts without a free separator -/

/-- No separator of a text is free, read from the state `m`. -/
def NoSeparator (m : Mode) (cs : List Char) : Prop := (splitChain (marked m cs)).2 = []

theorem noSeparator_nil (m : Mode) : NoSeparator m [] := rfl

theorem NoSeparator.splitChain_eq {m : Mode} {cs : List Char} (h : NoSeparator m cs) :
    splitChain (marked m cs) = (cs, []) :=
  Prod.ext (splitChain_of_nil m cs h) h

/-- A character that no separator starts with. -/
theorem startsSeparator_marked (m : Mode) {c : Char} (hc : c ≠ ';' ∧ c ≠ '&') (cs : List Char) :
    startsSeparator (marked m (c :: cs)) = false := by
  rw [marked]
  unfold startsSeparator
  split
  · next heq => exact absurd (Prod.mk.inj (List.cons.inj heq).1).1 hc.1
  · next heq => exact absurd (Prod.mk.inj (List.cons.inj heq).1).1 hc.2
  · rfl

theorem splitChain_marked_cons (m : Mode) {c : Char} (hc : c ≠ ';' ∧ c ≠ '&') (cs : List Char) :
    splitChain (marked m (c :: cs))
      = (c :: (splitChain (marked (m.step c) cs)).1, (splitChain (marked (m.step c) cs)).2) :=
  splitChain_of_not (startsSeparator_marked m hc cs)

theorem noSeparator_cons (m : Mode) {c : Char} (hc : c ≠ ';' ∧ c ≠ '&') (cs : List Char) :
    NoSeparator m (c :: cs) ↔ NoSeparator (m.step c) cs := by
  unfold NoSeparator
  rw [splitChain_marked_cons m hc]

theorem ne_of_isBlank_separator {c : Char} (hc : isBlank c = true) : c ≠ ';' ∧ c ≠ '&' :=
  ⟨Text.ne_of_isBlank hc rfl, Text.ne_of_isBlank hc rfl⟩

theorem noSeparator_blanks_append (m : Mode) {xs : List Char} (h : ∀ c ∈ xs, isBlank c = true)
    (ys : List Char) : NoSeparator m (xs ++ ys) ↔ NoSeparator (m.after xs) ys := by
  induction xs generalizing m with
  | nil => exact Iff.rfl
  | cons x xs ih =>
      rw [List.forall_mem_cons] at h
      rw [List.cons_append, noSeparator_cons m (ne_of_isBlank_separator h.1), ih _ h.2]
      rfl

theorem noSeparator_blanks (m : Mode) {cs : List Char} (h : ∀ c ∈ cs, isBlank c = true) :
    NoSeparator m cs := by
  have hnil := (noSeparator_blanks_append m h []).mpr (noSeparator_nil _)
  rwa [List.append_nil] at hnil

/-- **Two texts**, of which the second does not start with an `&`. -/
theorem noSeparator_append {m : Mode} {xs ys : List Char} {c : Char} (hc : c ≠ '&') :
    NoSeparator m (xs ++ c :: ys) ↔ NoSeparator m xs ∧ NoSeparator (m.after xs) (c :: ys) := by
  have happ : splitChain (marked m (xs ++ c :: ys))
      = glue (splitChain (marked m xs)).1 (splitChain (marked m xs)).2
          (splitChain (marked (m.after xs) (c :: ys))) := by
    rw [marked_append, marked, splitChain_append m xs hc]
  unfold NoSeparator
  rw [happ]
  cases (splitChain (marked m xs)).2 with
  | nil => simp [glue]
  | cons part rest => simp [glue]

/-- **White space at the ends does not count.** -/
theorem noSeparator_trimChars (cs : List Char) :
    NoSeparator {} cs ↔ NoSeparator {} (trimChars cs) := by
  have hlead : ∀ c ∈ cs.takeWhile isBlank, isBlank c = true := fun c =>
    Text.isBlank_of_mem_takeWhile
  have htrail : ∀ c ∈ trailing cs, isBlank c = true := fun c => Text.isBlank_of_mem_trailing
  conv_lhs => rw [Text.eq_trimChars cs, List.append_assoc]
  rw [noSeparator_blanks_append {} hlead, Mode.after_blanks hlead]
  generalize trailing cs = trail at htrail ⊢
  cases trail with
  | nil => rw [List.append_nil]
  | cons c trail =>
      -- white space is no `&`, so no separator reaches over the cut
      have hc := (ne_of_isBlank_separator (htrail c List.mem_cons_self)).2
      rw [noSeparator_append hc]
      exact and_iff_left (noSeparator_blanks _ htrail)

/-! ## The division -/

/-- **The parts make up the text**, with the separators between them. -/
theorem splitChain_eq (m : Mode) (cs : List Char) :
    cs = (splitChain (marked m cs)).1
      ++ (splitChain (marked m cs)).2.flatMap fun part => part.1.text.toList ++ part.2 := by
  induction m, cs using marked_induction with
  | nil m => rfl
  | next cs ih =>
      have hsplit : splitChain (marked {} (';' :: cs))
          = ([], (.next, (splitChain (marked {} cs)).1) :: (splitChain (marked {} cs)).2) := rfl
      rw [hsplit, List.flatMap_cons, List.append_assoc, ← ih]
      simp [Separator.text]
  | both cs ih =>
      have hsplit : splitChain (marked {} ('&' :: '&' :: cs))
          = ([], (.both, (splitChain (marked {} cs)).1) :: (splitChain (marked {} cs)).2) := rfl
      rw [hsplit, List.flatMap_cons, List.append_assoc, ← ih]
      simp [Separator.text]
  | other m c cs hsep ih =>
      rw [marked] at hsep ⊢
      rw [splitChain_of_not hsep, List.cons_append, ← ih]

/-- Parts of a chain with the separators after them: no separator is free in any part, and each but
the last ends where nothing is open. The first one is read from the state `m`. -/
inductive Parts : Mode → List (List Char × Option Separator) → Prop
  | last {m : Mode} {text : List Char} (free : NoSeparator m text) : Parts m [(text, none)]
  | more {m : Mode} {text : List Char} {separator : Separator}
      {rest : List (List Char × Option Separator)} (free : NoSeparator m text)
      (closed : m.after text = {}) (others : Parts {} rest) :
      Parts m ((text, some separator) :: rest)

theorem startsSeparator_of_append {xs ys : List (Char × Bool)}
    (h : startsSeparator (xs ++ ys) = false) : startsSeparator xs = false := by
  by_contra hsep
  rw [Bool.not_eq_false] at hsep
  unfold startsSeparator at hsep
  split at hsep
  · cases h
  · cases h
  · cases hsep

/-- **A line is divided into parts.** -/
theorem parts_splitChain (m : Mode) (cs : List Char) :
    Parts m (withSeparators (splitChain (marked m cs)).1 (splitChain (marked m cs)).2) := by
  induction m, cs using marked_induction with
  | nil m => exact .last (noSeparator_nil m)
  | next cs ih => exact .more (noSeparator_nil _) rfl ih
  | both cs ih => exact .more (noSeparator_nil _) rfl ih
  | other m c cs hsep ih =>
      have hcs := splitChain_eq (m.step c) cs
      rw [marked] at hsep ⊢
      rw [splitChain_of_not hsep]
      generalize splitChain (marked (m.step c) cs) = parts at ih hcs ⊢
      obtain ⟨first, rest⟩ := parts
      -- the character starts no separator of the line, and so none of its part
      have hstart : startsSeparator (marked m (c :: first)) = false := by
        rw [hcs, marked_append, ← List.cons_append] at hsep
        exact startsSeparator_of_append hsep
      have hfree : NoSeparator (m.step c) first → NoSeparator m (c :: first) := by
        intro h
        rw [marked] at hstart
        rw [NoSeparator, marked, splitChain_of_not hstart]
        exact h
      cases rest with
      | nil =>
          cases ih with
          | last free => exact .last (hfree free)
      | cons part rest =>
          cases ih with
          | more free closed others => exact .more (hfree free) closed others

/-! ## The segments -/

/-- Whether a text can be that of a segment: something is left of it, it is trimmed, and no
separator is free in it. -/
structure IsSegmentText (text : List Char) : Prop where
  ne_nil : text ≠ []
  trimmed : trimChars text = text
  free : NoSeparator {} text

/-- Texts of the segments of a chain with the separators after them. All but the last have a
separator and end outside quotations. -/
inductive Segmented : List (List Char × Option Separator) → Prop
  | nil : Segmented []
  | last {text : List Char} (isText : IsSegmentText text) : Segmented [(text, none)]
  | cons {text : List Char} {separator : Separator} {rest : List (List Char × Option Separator)}
      (isText : IsSegmentText text) (unquoted : (Mode.after {} text).quote = none)
      (others : Segmented rest) : Segmented ((text, some separator) :: rest)

/-- White space opens and closes no quotation. -/
theorem Mode.quote_after_blanks (m : Mode) {cs : List Char} (h : ∀ c ∈ cs, isBlank c = true) :
    (m.after cs).quote = m.quote := by
  induction cs generalizing m with
  | nil => rfl
  | cons c cs ih =>
      rw [List.forall_mem_cons] at h
      rw [Mode.after_cons, ih _ h.2, Mode.step_of_isBlank _ h.1]

/-- **A text without the white space at its ends leaves the same quotation open.** -/
theorem Mode.quote_after_trimChars (cs : List Char) :
    (Mode.after {} (trimChars cs)).quote = (Mode.after {} cs).quote := by
  conv_rhs => rw [Text.eq_trimChars cs]
  rw [Mode.after_append, Mode.quote_after_blanks _ fun c => Text.isBlank_of_mem_trailing,
    Mode.after_append, Mode.after_blanks fun c => Text.isBlank_of_mem_takeWhile]

theorem isSegmentText_trimChars {text : List Char} (hne : trimChars text ≠ [])
    (h : NoSeparator {} text) : IsSegmentText (trimChars text) where
  ne_nil := hne
  trimmed := Text.trimChars_trimChars text
  free := (noSeparator_trimChars text).mp h

/-- **The segments of a chain** end outside quotations, the last perhaps excepted. -/
theorem segmented_segmentTexts {first : List Char} {rest : List (Separator × List Char)}
    (h : Parts {} (withSeparators first rest)) : Segmented (segmentTexts first rest) := by
  induction rest generalizing first with
  | nil =>
      rw [segmentTexts_nil]
      cases h with
      | last free =>
          split_ifs with hne
          · exact .nil
          · exact .last (isSegmentText_trimChars hne free)
  | cons part rest ih =>
      obtain ⟨separator, next⟩ := part
      rw [segmentTexts_cons]
      cases h with
      | more free closed others =>
          split_ifs with hne
          · exact ih others
          · refine .cons (isSegmentText_trimChars hne free) ?_ (ih others)
            rw [Mode.quote_after_trimChars, closed]

end PocketShell.CommandLine
