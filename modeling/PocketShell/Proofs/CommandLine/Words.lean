import PocketShell.Proofs.CommandLine.Marking

set_option autoImplicit false

/-! # Words of a text in pieces

The cells of a text are those of its pieces, one after the other, as long as the state of the
reader is handed on (`cells_append`). A gap between two pieces separates their words
(`wordsIn_gap`), and gaps at the ends count for nothing. How many characters the words hold is
the number of cells that are no gaps (`letters_wordsIn`); with this number one sees when
cutting a text loses a character.
-/

namespace PocketShell.CommandLine

open PocketShell.Text (isBlank)

/-! ## Cells -/

/-- The cells of a text without what its end adds. -/
def cellsBefore (m : Mode) : List Char → List (Option Char)
  | [] => []
  | c :: cs =>
      (if m.isFree c && isBlank c then [none] else (m.adds c).map some) ++
        cellsBefore (m.step c) cs

/-- What the end of a text adds: a backslash that still waits for its character. -/
def cellsAtEnd (m : Mode) : List (Option Char) := if m.escaped then [some '\\'] else []

theorem cells_eq (m : Mode) (cs : List Char) :
    cells m cs = cellsBefore m cs ++ cellsAtEnd (m.after cs) := by
  induction cs generalizing m with
  | nil => rfl
  | cons c cs ih => rw [cells, cellsBefore, ih, List.append_assoc, Mode.after_cons]

/-- **The cells of a text are those of its pieces.** -/
theorem cells_append (m : Mode) (xs ys : List Char) :
    cells m (xs ++ ys) = cellsBefore m xs ++ cells (m.after xs) ys := by
  induction xs generalizing m with
  | nil => rfl
  | cons x xs ih =>
      rw [List.cons_append, cells, cellsBefore, ih, List.append_assoc, Mode.after_cons]

/-- A free white space character is a gap. -/
theorem cells_free_blank {m : Mode} {c : Char} (hf : m.isFree c = true) (hc : isBlank c = true)
    (cs : List Char) : cells m (c :: cs) = none :: cells {} cs := by
  rw [cells, hf, hc, Mode.step_of_isFree hf]
  rfl

theorem cellsBefore_blanks {cs : List Char} (h : ∀ c ∈ cs, isBlank c = true) :
    cellsBefore {} cs = List.replicate cs.length none := by
  induction cs with
  | nil => rfl
  | cons c cs ih =>
      rw [List.forall_mem_cons] at h
      have hf := Mode.isFree_of_isBlank {} h.1
      rw [cellsBefore, hf, h.1, Mode.step_of_isBlank _ h.1, ih h.2]
      rfl

/-! ## Runs and words -/

theorem runs_ne_nil (cells : List (Option Char)) : runs cells ≠ [] := by
  cases cells with
  | nil => simp [runs]
  | cons cell rest =>
      cases cell with
      | none => simp [runs]
      | some c =>
          rw [runs]
          split <;> simp

theorem runs_gap (xs ys : List (Option Char)) : runs (xs ++ none :: ys) = runs xs ++ runs ys := by
  induction xs with
  | nil => rfl
  | cons x xs ih =>
      cases x with
      | none => rw [List.cons_append, runs, ih, runs, List.cons_append]
      | some c =>
          rw [List.cons_append, runs, ih, runs]
          cases hr : runs xs with
          | nil => exact absurd hr (runs_ne_nil xs)
          | cons run more => rfl

/-- The words that cells hold. -/
def wordsIn (cells : List (Option Char)) : List (List Char) := (runs cells).filter (· ≠ [])

theorem wordsOf_eq (cs : List Char) : wordsOf cs = wordsIn (cells {} cs) := rfl

/-- **A gap separates words.** -/
theorem wordsIn_gap (xs ys : List (Option Char)) :
    wordsIn (xs ++ none :: ys) = wordsIn xs ++ wordsIn ys := by
  rw [wordsIn, runs_gap, List.filter_append]
  rfl

@[simp] theorem wordsIn_nil : wordsIn [] = [] := rfl

theorem wordsIn_gaps_append (n : Nat) (xs : List (Option Char)) :
    wordsIn (List.replicate n none ++ xs) = wordsIn xs := by
  induction n with
  | zero => rfl
  | succ n ih =>
      have hgap := wordsIn_gap [] (List.replicate n none ++ xs)
      rw [List.replicate_succ, List.cons_append]
      rw [List.nil_append, wordsIn_nil, List.nil_append] at hgap
      rw [hgap, ih]

theorem wordsIn_append_gaps (xs : List (Option Char)) (n : Nat) :
    wordsIn (xs ++ List.replicate n none) = wordsIn xs := by
  cases n with
  | zero => rw [List.replicate_zero, List.append_nil]
  | succ n =>
      have hgaps := wordsIn_gaps_append n []
      rw [List.append_nil] at hgaps
      rw [List.replicate_succ, wordsIn_gap, hgaps, wordsIn_nil, List.append_nil]

/-- Pieces that follow one another with a gap before each. -/
theorem wordsIn_pieces {α : Type} (f : α → List (Option Char)) (xs : List (Option Char))
    (pieces : List α) :
    wordsIn (xs ++ pieces.flatMap fun piece => none :: f piece)
      = wordsIn xs ++ pieces.flatMap fun piece => wordsIn (f piece) := by
  induction pieces generalizing xs with
  | nil => rw [List.flatMap_nil, List.flatMap_nil, List.append_nil, List.append_nil]
  | cons piece pieces ih =>
      rw [List.flatMap_cons, List.flatMap_cons, List.cons_append, wordsIn_gap, ih]

/-! ## Counting the characters of words -/

/-- The number of characters that words hold. -/
def letters (words : List (List Char)) : Nat := (words.map List.length).sum

theorem letters_append (xs ys : List (List Char)) :
    letters (xs ++ ys) = letters xs + letters ys := by
  rw [letters, List.map_append, List.sum_append]
  rfl

/-- Leaving out empty words loses no character. -/
theorem letters_filter (words : List (List Char)) :
    letters (words.filter (· ≠ [])) = letters words := by
  induction words with
  | nil => rfl
  | cons word words ih =>
      rw [List.filter_cons]
      cases word with
      | nil =>
          show letters (words.filter (· ≠ [])) = letters ([] :: words)
          rw [ih]
          simp [letters]
      | cons c word =>
          show letters ((c :: word) :: words.filter (· ≠ [])) = _
          rw [letters, List.map_cons, List.sum_cons, ← letters, ih]
          rfl

/-- **The words hold the cells that are no gaps.** -/
theorem letters_wordsIn (cells : List (Option Char)) :
    letters (wordsIn cells) = cells.countP Option.isSome := by
  rw [wordsIn, letters_filter]
  induction cells with
  | nil => rfl
  | cons cell rest ih =>
      cases cell with
      | none =>
          rw [runs, List.countP_cons_of_neg (by simp), ← ih]
          simp [letters]
      | some c =>
          rw [runs, List.countP_cons_of_pos (by simp), ← ih]
          cases hr : runs rest with
          | nil => exact absurd hr (runs_ne_nil rest)
          | cons run more =>
              simp [letters]
              omega

end PocketShell.CommandLine
