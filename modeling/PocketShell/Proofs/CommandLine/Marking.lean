import PocketShell.CommandLine.Line
import Mathlib.Data.List.TakeWhile
import Mathlib.Tactic

set_option autoImplicit false

/-! # Reading a line in pieces

The reader of a command line has a state, so a piece of a line can be read on its own only if
the state at its start is known. At a free character nothing is open (`Mode.isFree_iff`): what
follows a free separator is read as if the line began there. White space is free exactly
where nothing is open, which decides whether cutting it off loses anything.
-/

namespace PocketShell

/-! ## White space at the ends of a text -/

namespace Text

/-- The white space that trimming takes from the end of a text. -/
def trailing (cs : List Char) : List Char :=
  ((cs.dropWhile isBlank).reverse.takeWhile isBlank).reverse

/-- **A text is what trimming leaves of it, between white space.** -/
theorem eq_trimChars (cs : List Char) :
    cs = cs.takeWhile isBlank ++ trimChars cs ++ trailing cs := by
  have hend : cs.dropWhile isBlank = trimChars cs ++ trailing cs := by
    rw [trimChars, trailing, ← List.reverse_append, List.takeWhile_append_dropWhile,
      List.reverse_reverse]
  rw [List.append_assoc, ← hend, List.takeWhile_append_dropWhile]

theorem isBlank_of_mem_takeWhile {cs : List Char} {c : Char} (h : c ∈ cs.takeWhile isBlank) :
    isBlank c = true := List.mem_takeWhile_imp h

theorem isBlank_of_mem_trailing {cs : List Char} {c : Char} (h : c ∈ trailing cs) :
    isBlank c = true := isBlank_of_mem_takeWhile (List.mem_reverse.mp h)

/-- What trimming leaves does not end with white space. -/
theorem takeWhile_reverse_trimChars (cs : List Char) :
    (trimChars cs).reverse.takeWhile isBlank = [] := by
  rw [trimChars, List.reverse_reverse]
  cases hd : (cs.dropWhile isBlank).reverse.dropWhile isBlank with
  | nil => rfl
  | cons c rest =>
      have hne : (cs.dropWhile isBlank).reverse.dropWhile isBlank ≠ [] := by simp [hd]
      have hc := List.head_dropWhile_not isBlank hne
      simp only [hd, List.head_cons] at hc
      rw [List.takeWhile_cons, if_neg (by simp [hc])]

/-- What trimming leaves does not start with white space. -/
theorem dropWhile_trimChars (cs : List Char) :
    (trimChars cs).dropWhile isBlank = trimChars cs := by
  have hprefix : trimChars cs <+: cs.dropWhile isBlank := by
    rw [trimChars, ← List.reverse_suffix, List.reverse_reverse]
    exact List.dropWhile_suffix isBlank
  cases htrim : trimChars cs with
  | nil => rfl
  | cons c rest =>
      -- the first character is the one at which white space has been dropped
      rw [htrim] at hprefix
      obtain ⟨more, hmore⟩ := hprefix
      have hne : cs.dropWhile isBlank ≠ [] := by simp [← hmore]
      have hc := List.head_dropWhile_not isBlank hne
      simp only [← hmore, List.cons_append, List.head_cons] at hc
      rw [List.dropWhile_cons, if_neg (by simp [hc])]

theorem dropWhile_of_takeWhile_eq_nil {cs : List Char} (h : cs.takeWhile isBlank = []) :
    cs.dropWhile isBlank = cs := by
  have happ := List.takeWhile_append_dropWhile (p := isBlank) (l := cs)
  rwa [h, List.nil_append] at happ

/-- **Trimming twice is trimming once.** -/
theorem trimChars_trimChars (cs : List Char) : trimChars (trimChars cs) = trimChars cs := by
  rw [trimChars, dropWhile_trimChars,
    dropWhile_of_takeWhile_eq_nil (takeWhile_reverse_trimChars cs), List.reverse_reverse]

theorem trim_trim (s : String) : trim (trim s) = trim s := by
  rw [trim, trim, String.toList_ofList, trimChars_trimChars]

theorem trimChars_cons {c : Char} (hc : isBlank c = true) (cs : List Char) :
    trimChars (c :: cs) = trimChars cs := by
  rw [trimChars, trimChars, List.dropWhile_cons, if_pos hc]

theorem trimChars_concat {c : Char} (hc : isBlank c = true) (cs : List Char) :
    trimChars (cs ++ [c]) = trimChars cs := by
  rw [trimChars, trimChars, List.dropWhile_append]
  by_cases hall : (cs.dropWhile isBlank).isEmpty = true
  · rw [if_pos hall, List.isEmpty_iff.mp hall, List.dropWhile_cons, if_pos hc]
    rfl
  · rw [if_neg hall, List.reverse_append, List.reverse_singleton, List.singleton_append,
      List.dropWhile_cons, if_pos hc]

theorem takeWhile_isBlank_eq_nil_iff {cs : List Char} :
    cs.takeWhile isBlank = [] ↔ ∀ c ∈ cs.head?, isBlank c = false := by
  cases cs with
  | nil => simp
  | cons c cs => simp [List.takeWhile_cons]

/-- **A text is not trimmed** if and only if it neither starts nor ends with white space. -/
theorem trimChars_eq_self_iff {cs : List Char} :
    trimChars cs = cs
      ↔ (∀ c ∈ cs.head?, isBlank c = false) ∧ ∀ c ∈ cs.getLast?, isBlank c = false := by
  rw [← List.head?_reverse, ← takeWhile_isBlank_eq_nil_iff, ← takeWhile_isBlank_eq_nil_iff]
  constructor
  · intro h
    have hstart := dropWhile_trimChars cs
    have hend := takeWhile_reverse_trimChars cs
    rw [h] at hstart hend
    have happ := List.takeWhile_append_dropWhile (p := isBlank) (l := cs)
    rw [hstart] at happ
    exact ⟨List.append_left_eq_self.mp happ, hend⟩
  · rintro ⟨hstart, hend⟩
    rw [trimChars, dropWhile_of_takeWhile_eq_nil hstart, dropWhile_of_takeWhile_eq_nil hend,
      List.reverse_reverse]

/-- A text without white space is not trimmed. -/
theorem trimChars_of_no_blank {cs : List Char} (h : ∀ c ∈ cs, isBlank c = false) :
    trimChars cs = cs :=
  trimChars_eq_self_iff.mpr
    ⟨fun c hc => h c (List.mem_of_mem_head? hc), fun c hc => h c (List.mem_of_mem_getLast? hc)⟩

/-- White space differs from every character that is none. -/
theorem ne_of_isBlank {c d : Char} (hc : isBlank c = true) (hd : isBlank d = false) : c ≠ d := by
  rintro rfl
  rw [hc] at hd
  cases hd

end Text

namespace CommandLine

open PocketShell.Text (isBlank)

/-! ## The state of the reader -/

namespace Mode

theorem isPlain_iff {m : Mode} : m.isPlain = true ↔ m = {} := by
  obtain ⟨quote, escaped⟩ := m
  cases quote <;> cases escaped <;> simp [isPlain]

/-- **At a free character nothing is open.** -/
theorem isFree_iff {m : Mode} {c : Char} :
    m.isFree c = true ↔ m = {} ∧ c ≠ '\\' ∧ isQuote c = false := by
  rw [← isPlain_iff, isFree, isPlain]
  simp [and_assoc]

theorem step_of_isFree {m : Mode} {c : Char} (h : m.isFree c = true) : m.step c = {} := by
  obtain ⟨rfl, hc, hq⟩ := isFree_iff.mp h
  simp [step, hc, hq]

theorem after_cons (m : Mode) (c : Char) (cs : List Char) :
    m.after (c :: cs) = (m.step c).after cs := rfl

theorem after_append (m : Mode) (xs ys : List Char) :
    m.after (xs ++ ys) = (m.after xs).after ys := List.foldl_append

/-- White space is no backslash and no quote mark. -/
theorem isBlank_spec {c : Char} (hc : isBlank c = true) : c ≠ '\\' ∧ isQuote c = false := by
  refine ⟨Text.ne_of_isBlank hc rfl, ?_⟩
  rw [isQuote, Bool.or_eq_false_iff, beq_eq_false_iff_ne, beq_eq_false_iff_ne]
  exact ⟨Text.ne_of_isBlank hc rfl, Text.ne_of_isBlank hc rfl⟩

/-- **White space is free exactly where nothing is open.** -/
theorem isFree_of_isBlank (m : Mode) {c : Char} (hc : isBlank c = true) :
    m.isFree c = m.isPlain := by
  obtain ⟨hb, hq⟩ := isBlank_spec hc
  simp [isFree, isPlain, hb, hq]

theorem step_of_isBlank (m : Mode) {c : Char} (hc : isBlank c = true) :
    m.step c = { m with escaped := false } := by
  obtain ⟨hb, hq⟩ := isBlank_spec hc
  obtain ⟨quote, escaped⟩ := m
  cases escaped <;> simp [step, hb, hq]

theorem after_blanks {cs : List Char} (h : ∀ c ∈ cs, isBlank c = true) :
    Mode.after {} cs = {} := by
  induction cs with
  | nil => rfl
  | cons c cs ih =>
      rw [List.forall_mem_cons] at h
      rw [after_cons, step_of_isBlank _ h.1]
      exact ih h.2

end Mode

/-! ## Marked characters -/

theorem marked_append (m : Mode) (xs ys : List Char) :
    marked m (xs ++ ys) = marked m xs ++ marked (m.after xs) ys := by
  induction xs generalizing m with
  | nil => rfl
  | cons x xs ih => rw [List.cons_append, marked, marked, ih, List.cons_append, Mode.after_cons]

@[simp] theorem map_fst_marked (m : Mode) (cs : List Char) : (marked m cs).map Prod.fst = cs := by
  induction cs generalizing m with
  | nil => rfl
  | cons c cs ih => rw [marked, List.map_cons, ih]

/-- In white space that starts where nothing is open every character is free. -/
theorem marked_blanks {cs : List Char} (h : ∀ c ∈ cs, isBlank c = true) :
    ∀ cell ∈ marked {} cs, cell.2 = true := by
  induction cs with
  | nil => exact fun cell hcell => absurd hcell List.not_mem_nil
  | cons c cs ih =>
      rw [List.forall_mem_cons] at h
      rw [marked, List.forall_mem_cons, Mode.step_of_isBlank _ h.1]
      exact ⟨Mode.isFree_of_isBlank {} h.1, ih h.2⟩

end CommandLine

end PocketShell
