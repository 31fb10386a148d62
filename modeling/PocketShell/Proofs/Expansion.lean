import PocketShell.Expansion
import Mathlib.Tactic

set_option autoImplicit false

/-! # First words and pieces

The first word of a line is what stands before its first blank. A text with references to variables
has a piece for each reference, and for each character that is in none.

A line keeps its text if its first word is no alias, and if there is no dollar sign in it.
-/

namespace PocketShell

/-! ## Cutting a text -/

namespace Text

/-- **A text is cut at the first mark.** -/
theorem cut?_append {mark : Char} {before : List Char} (h : mark ∉ before) (after : List Char) :
    cut? mark (before ++ mark :: after) = some (before, after) := by
  induction before with
  | nil => rw [List.nil_append, cut?, if_pos rfl]
  | cons c before ih =>
      rw [List.mem_cons, not_or] at h
      rw [List.cons_append, cut?, if_neg (Ne.symm h.1), ih h.2]
      rfl

theorem cut?_of_notMem {mark : Char} {cs : List Char} (h : mark ∉ cs) : cut? mark cs = none := by
  induction cs with
  | nil => rfl
  | cons c cs ih =>
      rw [List.mem_cons, not_or] at h
      rw [cut?, if_neg (Ne.symm h.1), ih h.2]
      rfl

/-- A text without a mark, or one that is cut at its first mark. -/
theorem cut?_cases (mark : Char) (cs : List Char) :
    (mark ∉ cs ∧ cut? mark cs = none) ∨
      ∃ before after, cs = before ++ mark :: after ∧ mark ∉ before ∧
        cut? mark cs = some (before, after) := by
  by_cases h : mark ∈ cs
  · obtain ⟨before, after, rfl, hbefore⟩ := List.eq_append_cons_of_mem h
    exact .inr ⟨before, after, rfl, hbefore, cut?_append hbefore after⟩
  · exact .inl ⟨h, cut?_of_notMem h⟩

end Text

/-! ## Aliases -/

theorem firstWord_eq (line : List Char) :
    firstWord line = (line.takeWhile (· ≠ ' '), line.dropWhile (· ≠ ' ')) := by
  induction line with
  | nil => rfl
  | cons c line ih =>
      rw [firstWord, List.takeWhile_cons, List.dropWhile_cons, ih]
      by_cases hc : c = ' '
      · simp [hc]
      · simp [hc]

theorem firstWord_append {word : List Char} (h : ' ' ∉ word) (rest : List Char) :
    firstWord (word ++ ' ' :: rest) = (word, ' ' :: rest) := by
  induction word with
  | nil => rfl
  | cons c word ih =>
      rw [List.mem_cons, not_or] at h
      rw [List.cons_append, firstWord, if_neg (Ne.symm h.1), ih h.2]

/-- **A line whose first word is no alias stays as it is.** -/
theorem expandAliases_of_none {aliases : Std.TreeMap String String} {line : String}
    (h : aliases[String.ofList (firstWord line.toList).1]? = none) (passes : Nat) :
    expandAliases aliases passes line = line := by
  have hchars : replaceAliases aliases [] passes line.toList = line.toList := by
    cases passes with
    | zero => rfl
    | succ passes =>
        rw [replaceAliases]
        simp only [h, List.contains_nil, Bool.false_eq_true, if_false]
  rw [expandAliases, hchars, String.ofList_toList]

/-! ## Variables -/

theorem piecesAfter_eq (skip : Nat) (cs : List Char) :
    piecesAfter skip cs = pieces (cs.drop skip) := by
  induction cs generalizing skip with
  | nil => cases skip <;> rfl
  | cons c cs ih =>
      cases skip with
      | zero => rfl
      | succ skip => rw [piecesAfter, ih, List.drop_succ_cons]

theorem pieces_cons_of_ne {c : Char} (h : c ≠ '$') (cs : List Char) :
    pieces (c :: cs) = .char c :: pieces cs := by
  rw [pieces, piecesAfter, if_neg h, ← pieces]

theorem pieces_dollar_of_some {after : List Char} {piece : Piece}
    (h : Piece.reference? after = some piece) :
    pieces ('$' :: after) = piece :: pieces (after.drop piece.widthAfterDollar) := by
  rw [pieces, piecesAfter, if_pos rfl, h]
  dsimp only
  rw [piecesAfter_eq]

theorem pieces_dollar_of_none {after : List Char} (h : Piece.reference? after = none) :
    pieces ('$' :: after) = .char '$' :: pieces after := by
  rw [pieces, piecesAfter, if_pos rfl, h]
  rfl

/-- Without a body in braces a reference is by the longest name. -/
theorem reference?_eq {after : List Char}
    (h : ∀ inner, after = '\x7b' :: inner → Text.cut? '\x7d' inner = none) :
    Piece.reference? after
      = if after.takeWhile isNameChar = [] then none
        else some (.plain (after.takeWhile isNameChar)) := by
  unfold Piece.reference?
  cases hname : after.takeWhile isNameChar with
  | nil =>
      rw [if_pos rfl]
      dsimp only
      split
      · rw [h _ rfl]
      · rfl
  | cons c name =>
      rw [if_neg (List.cons_ne_nil c name)]
      dsimp only
      split
      · rw [h _ rfl]
      · rfl

theorem reference?_braced {body : List Char} (h : '\x7d' ∉ body) (tail : List Char) :
    Piece.reference? ('\x7b' :: (body ++ '\x7d' :: tail)) = some (.braced body) := by
  rw [Piece.reference?, Text.cut?_append h]

/-- A body in braces is a piece, and the next one begins after it. -/
theorem pieces_braced {body : List Char} (h : '\x7d' ∉ body) (tail : List Char) :
    pieces ('$' :: '\x7b' :: (body ++ '\x7d' :: tail)) = .braced body :: pieces tail := by
  have hwidth : ('\x7b' :: (body ++ '\x7d' :: tail)).drop (Piece.braced body).widthAfterDollar
      = tail := by
    rw [Piece.widthAfterDollar, List.drop_succ_cons, List.drop_append]
    simp
  rw [pieces_dollar_of_some (reference?_braced h tail), hwidth]

theorem pieces_of_no_dollar {cs : List Char} (h : '$' ∉ cs) : pieces cs = cs.map .char := by
  induction cs with
  | nil => rfl
  | cons c cs ih =>
      rw [List.mem_cons, not_or] at h
      rw [pieces_cons_of_ne (Ne.symm h.1), ih h.2, List.map_cons]

/-- **A text without a dollar sign stays as it is.** -/
theorem expandVariables_of_no_dollar {text : String} (h : '$' ∉ text.toList)
    (lookup : String → Option String) : expandVariables lookup text = text := by
  have hsame : ∀ cs : List Char, (cs.map Piece.char).flatMap (Piece.expand lookup) = cs := by
    intro cs
    induction cs with
    | nil => rfl
    | cons c cs ih =>
        rw [List.map_cons, List.flatMap_cons, ih]
        rfl
  rw [expandVariables, pieces_of_no_dollar h, hsame, String.ofList_toList]

end PocketShell
