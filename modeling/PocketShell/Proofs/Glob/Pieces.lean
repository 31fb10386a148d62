import PocketShell.Glob
import Mathlib.Tactic

set_option autoImplicit false

/-! # What a pattern accepts

A name is accepted if it can be divided into pieces, one for each character of the pattern
(`Glob.Divides`). There may be many ways to divide it, and the rows of the matcher follow all of
them at once: the row of a pattern tells of each suffix of the name whether it can be divided
(`Glob.rowOf_tells`). One step goes from the row of a pattern to that of the pattern with one more
character in front.
-/

namespace PocketShell.Glob

/-! ## Dividing a name -/

/-- What a character of a pattern stands for: `*` for a run of characters, which may be empty, `?` for
any one character, and every other character for itself. Line feeds are only meant by themselves. -/
def StandsFor (p : Char) (piece : List Char) : Prop :=
  if p = '*' then '\n' ∉ piece
  else if p = '?' then ∃ c, c ≠ '\n' ∧ piece = [c]
  else piece = [p]

/-- **The name can be divided** into consecutive pieces that the characters of the pattern stand for,
in order. -/
def Divides (pattern name : List Char) : Prop :=
  ∃ pieces, List.Forall₂ StandsFor pattern pieces ∧ pieces.flatten = name

@[simp] theorem divides_nil {name : List Char} : Divides [] name ↔ name = [] := by
  constructor
  · rintro ⟨pieces, hpieces, rfl⟩
    cases hpieces
    rfl
  · rintro rfl
    exact ⟨[], .nil, rfl⟩

theorem divides_cons {p : Char} {pattern name : List Char} :
    Divides (p :: pattern) name
      ↔ ∃ piece rest, name = piece ++ rest ∧ StandsFor p piece ∧ Divides pattern rest := by
  constructor
  · rintro ⟨_, hpieces, rfl⟩
    cases hpieces with
    | cons hpiece hrest => exact ⟨_, _, rfl, hpiece, _, hrest, rfl⟩
  · rintro ⟨piece, _, rfl, hpiece, pieces, hpieces, rfl⟩
    exact ⟨piece :: pieces, .cons hpiece hpieces, rfl⟩

theorem standsFor_star {piece : List Char} : StandsFor '*' piece ↔ '\n' ∉ piece := by
  rw [StandsFor, if_pos rfl]

theorem standsFor_any {piece : List Char} : StandsFor '?' piece ↔ ∃ c, c ≠ '\n' ∧ piece = [c] := by
  rw [StandsFor, if_neg (by decide), if_pos rfl]

theorem standsFor_self {p : Char} (hstar : p ≠ '*') (hany : p ≠ '?') {piece : List Char} :
    StandsFor p piece ↔ piece = [p] := by
  rw [StandsFor, if_neg hstar, if_neg hany]

/-! ## Rows -/

/-- **A row tells of each suffix of the name**, longest first, whether it has a property. -/
inductive Tells (holds : List Char → Prop) : List Char → List Bool → Prop where
  | nil {here : Bool} (h : here = true ↔ holds []) : Tells holds [] [here]
  | cons {c : Char} {cs : List Char} {here : Bool} {row : List Bool}
      (h : here = true ↔ holds (c :: cs)) (hrow : Tells holds cs row) :
      Tells holds (c :: cs) (here :: row)

variable {holds : List Char → Prop} {name : List Char} {row : List Bool}

/-- The first entry is about the whole name. -/
theorem Tells.headD_iff (h : Tells holds name row) : row.headD false = true ↔ holds name := by
  cases h with
  | nil h => exact h
  | cons h _ => exact h

theorem Tells.congr {holds' : List Char → Prop} (h : Tells holds name row)
    (hsame : ∀ rest, holds rest ↔ holds' rest) : Tells holds' name row := by
  rwa [← funext fun rest => propext (hsame rest)]

/-- After the end of the pattern there must be nothing left. -/
theorem emptyRow_tells (name : List Char) : Tells (· = []) name (emptyRow name) := by
  induction name with
  | nil => exact .nil (by simp)
  | cons c cs ih => exact .cons (by simp) ih

/-- A run of characters is empty, or takes one and is a run from there on. -/
theorem exists_run_cons {c : Char} {cs : List Char} :
    (∃ run rest, c :: cs = run ++ rest ∧ '\n' ∉ run ∧ holds rest)
      ↔ holds (c :: cs) ∨
        c ≠ '\n' ∧ ∃ run rest, cs = run ++ rest ∧ '\n' ∉ run ∧ holds rest := by
  constructor
  · rintro ⟨run, rest, heq, hrun, hrest⟩
    cases run with
    | nil =>
        rw [List.nil_append] at heq
        exact .inl (heq ▸ hrest)
    | cons d run =>
        obtain ⟨rfl, rfl⟩ := List.cons.inj heq
        obtain ⟨hne, hrun⟩ := not_or.mp (List.mem_cons.not.mp hrun)
        exact .inr ⟨Ne.symm hne, run, rest, rfl, hrun, hrest⟩
  · rintro (hrest | ⟨hne, run, rest, rfl, hrun, hrest⟩)
    · exact ⟨[], c :: cs, rfl, List.not_mem_nil, hrest⟩
    · refine ⟨c :: run, rest, rfl, ?_, hrest⟩
      exact List.mem_cons.not.mpr (not_or.mpr ⟨Ne.symm hne, hrun⟩)

/-- **The step for `*`**: a run of characters and then what the row tells of. -/
theorem starRow_tells (h : Tells holds name row) :
    Tells (fun s => ∃ run rest, s = run ++ rest ∧ '\n' ∉ run ∧ holds rest) name
      (starRow name row) := by
  induction h with
  | nil h =>
      refine .nil (h.trans ⟨fun hnil => ⟨[], [], rfl, List.not_mem_nil, hnil⟩, ?_⟩)
      rintro ⟨run, rest, heq, -, hrest⟩
      obtain ⟨-, rfl⟩ := List.nil_eq_append_iff.mp heq
      exact hrest
  | cons h _ ih =>
      refine .cons ?_ ih
      rw [Bool.or_eq_true, Bool.and_eq_true, bne_iff_ne, ih.headD_iff, h, exists_run_cons]

/-- **The step for one character** of a class, and then what the row tells of. -/
theorem charRow_tells (takes : Char → Bool) (h : Tells holds name row) :
    Tells (fun s => ∃ c rest, s = c :: rest ∧ takes c = true ∧ holds rest) name
      (charRow takes name row) := by
  induction h with
  | nil _ =>
      refine .nil ⟨fun hfalse => (Bool.false_ne_true hfalse).elim, ?_⟩
      rintro ⟨c, rest, heq, -⟩
      cases heq
  | cons _ hrow ih =>
      refine .cons ?_ ih
      rw [Bool.and_eq_true, hrow.headD_iff]
      constructor
      · rintro ⟨htakes, hrest⟩
        exact ⟨_, _, rfl, htakes, hrest⟩
      · rintro ⟨_, _, heq, htakes, hrest⟩
        obtain ⟨rfl, rfl⟩ := List.cons.inj heq
        exact ⟨htakes, hrest⟩

/-- A piece of one character, and the rest of the name. -/
theorem exists_one_append {takes : Char → Prop} {s : List Char} :
    (∃ c rest, s = c :: rest ∧ takes c ∧ holds rest)
      ↔ ∃ piece rest, s = piece ++ rest ∧ (∃ c, takes c ∧ piece = [c]) ∧ holds rest := by
  constructor
  · rintro ⟨c, rest, rfl, htakes, hrest⟩
    exact ⟨[c], rest, rfl, ⟨c, htakes, rfl⟩, hrest⟩
  · rintro ⟨_, rest, rfl, ⟨c, htakes, rfl⟩, hrest⟩
    exact ⟨c, rest, rfl, htakes, hrest⟩

/-- **One more character in front of a pattern.** -/
theorem rowOfChar_tells {pattern : List Char} (p : Char) (h : Tells (Divides pattern) name row) :
    Tells (Divides (p :: pattern)) name (rowOfChar name p row) := by
  rw [rowOfChar]
  split_ifs with hstar hany
  · subst hstar
    refine (starRow_tells h).congr fun rest => ?_
    simp only [divides_cons, standsFor_star]
  · subst hany
    refine (charRow_tells _ h).congr fun rest => ?_
    simp only [divides_cons, standsFor_any, bne_iff_ne]
    exact exists_one_append
  · refine (charRow_tells _ h).congr fun rest => ?_
    simp only [divides_cons, standsFor_self hstar hany, beq_iff_eq]
    rw [exists_one_append]
    simp only [exists_eq_left]

/-- **The row of a pattern tells which suffixes of the name can be divided.** -/
theorem rowOf_tells (pattern name : List Char) :
    Tells (Divides pattern) name (rowOf pattern name) := by
  induction pattern with
  | nil => exact (emptyRow_tells name).congr fun rest => divides_nil.symm
  | cons p pattern ih => exact rowOfChar_tells p ih

/-- **A pattern accepts the names that can be divided.** -/
theorem accepts_iff_divides (g : Glob) (name : String) :
    g.accepts name = true ↔ Divides g.pattern.toList name.toList :=
  (rowOf_tells g.pattern.toList name.toList).headD_iff

instance (pattern name : List Char) : Decidable (Divides pattern name) :=
  decidable_of_iff _ (rowOf_tells pattern name).headD_iff

/-- Two stars around a dot: the second piece is one of the dots of the name. -/
example : Divides "*.?*".toList "a.b.c".toList ∧ ¬ Divides "*.?*".toList "a\n.b".toList := by
  decide

end PocketShell.Glob
