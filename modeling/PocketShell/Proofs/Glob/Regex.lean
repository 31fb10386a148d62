import Mathlib.Tactic

set_option autoImplicit false

/-! # Regular expressions that patterns use

Of regular expressions only a few things are needed: the two anchors, any character, any run of
characters, and characters taken literally, one after the other. What such a row of atoms means is
told by the parts of a text that it takes (`Regex.Takes`), and a library gives expressions their
standard meaning if it finds the texts in which they occur (`Regex.Library.Standard`).

A library that does is the one that reads a source back into its atoms and tries all ways to split
a text (`Regex.reference_standard`).
-/

namespace PocketShell

namespace Regex

/-! ## Expressions -/

/-- A part of an expression. -/
inductive Atom where
  /-- The start of the text. -/
  | start
  /-- The end of the text. -/
  | finish
  /-- Any character but a line feed. -/
  | any
  /-- Any run of such characters. -/
  | anyRun
  /-- One character, taken literally. -/
  | literal (c : Char)
deriving DecidableEq

/-- An atom takes `piece` out of the text, with `before` before it and `after` after it. -/
def Atom.Takes : Atom → (before piece after : List Char) → Prop
  | start, before, piece, _ => before = [] ∧ piece = []
  | finish, _, piece, after => after = [] ∧ piece = []
  | any, _, piece, _ => ∃ c, c ≠ '\n' ∧ piece = [c]
  | anyRun, _, piece, _ => '\n' ∉ piece
  | literal c, _, piece, _ => piece = [c]

/-- Atoms in a row take a piece if each takes a part of it, one part after the other. -/
def Takes : List Atom → (before piece after : List Char) → Prop
  | [], _, piece, _ => piece = []
  | atom :: atoms, before, piece, after => ∃ first rest, piece = first ++ rest ∧
      atom.Takes before first (rest ++ after) ∧ Takes atoms (before ++ first) rest after

/-- An expression occurs in a text if it takes some piece of it. -/
def Occurs (atoms : List Atom) (text : List Char) : Prop :=
  ∃ before piece after, text = before ++ piece ++ after ∧ Takes atoms before piece after

/-- How an atom is written. A literal is written as the library escapes it. -/
def Atom.spelling (escape : String → String) : Atom → String
  | start => "^"
  | finish => "$"
  | any => "."
  | anyRun => ".*"
  | literal c => escape (String.singleton c)

/-- How an expression is written. -/
def spell (escape : String → String) : List Atom → String
  | [] => ""
  | atom :: atoms => atom.spelling escape ++ spell escape atoms

theorem spell_append (escape : String → String) (atoms more : List Atom) :
    spell escape (atoms ++ more) = spell escape atoms ++ spell escape more := by
  induction atoms with
  | nil => exact (String.empty_append).symm
  | cons atom atoms ih => rw [List.cons_append, spell, ih, spell, String.append_assoc]

/-- A library of regular expressions. -/
structure Library where
  /-- What an expression is compiled to. -/
  Expression : Type
  Failure : Type
  escape : String → String
  compile : String → Except Failure Expression
  /-- Whether an expression occurs in a text. -/
  isMatch : Expression → String → Bool

/-- **The library gives expressions their standard meaning**, as long as their sources fit: what is
written as a row of atoms compiles, and matches the texts in which these atoms occur. -/
structure Library.Standard (library : Library) (fits : String → Prop) : Prop where
  compiles : ∀ atoms, fits (spell library.escape atoms) →
    ∃ expression, library.compile (spell library.escape atoms) = .ok expression ∧
      ∀ text, library.isMatch expression text = true ↔ Occurs atoms text.toList

/-! ## Trying all ways to split a text -/

/-- There are as many ways to split a list in two as there are places in it. -/
theorem exists_take_drop_iff {α : Type} (p : List α → List α → Prop) (l : List α) :
    (∃ n ∈ List.range (l.length + 1), p (l.take n) (l.drop n))
      ↔ ∃ first rest, l = first ++ rest ∧ p first rest := by
  constructor
  · rintro ⟨n, -, hn⟩
    exact ⟨_, _, (List.take_append_drop n l).symm, hn⟩
  · rintro ⟨first, rest, rfl, hp⟩
    refine ⟨first.length, ?_, ?_⟩
    · rw [List.mem_range, List.length_append]
      omega
    · rwa [List.take_left, List.drop_left]

instance decidableSplit {α : Type} (p : List α → List α → Prop) [∀ x y, Decidable (p x y)]
    (l : List α) : Decidable (∃ first rest, l = first ++ rest ∧ p first rest) :=
  decidable_of_iff _ (exists_take_drop_iff p l)

theorem takes_any_iff {piece : List Char} :
    piece.length = 1 ∧ '\n' ∉ piece ↔ ∃ c, c ≠ '\n' ∧ piece = [c] := by
  rw [List.length_eq_one_iff]
  constructor
  · rintro ⟨⟨c, rfl⟩, hc⟩
    exact ⟨c, fun heq => hc (List.mem_singleton.mpr heq.symm), rfl⟩
  · rintro ⟨c, hc, rfl⟩
    exact ⟨⟨c, rfl⟩, fun hmem => hc (List.mem_singleton.mp hmem).symm⟩

instance (atom : Atom) (before piece after : List Char) :
    Decidable (atom.Takes before piece after) :=
  match atom with
  | .start => inferInstanceAs (Decidable (before = [] ∧ piece = []))
  | .finish => inferInstanceAs (Decidable (after = [] ∧ piece = []))
  | .any => decidable_of_iff _ takes_any_iff
  | .anyRun => inferInstanceAs (Decidable ('\n' ∉ piece))
  | .literal c => inferInstanceAs (Decidable (piece = [c]))

instance decidableTakes : (atoms : List Atom) → (before piece after : List Char) →
    Decidable (Takes atoms before piece after)
  | [], _, piece, _ => inferInstanceAs (Decidable (piece = []))
  | atom :: atoms, before, piece, after =>
      have := decidableTakes atoms
      inferInstanceAs (Decidable (∃ first rest, piece = first ++ rest ∧
        atom.Takes before first (rest ++ after) ∧ Takes atoms (before ++ first) rest after))

theorem exists_split_iff_occurs {atoms : List Atom} {text : List Char} :
    (∃ before more, text = before ++ more ∧
        ∃ piece after, more = piece ++ after ∧ Takes atoms before piece after)
      ↔ Occurs atoms text := by
  constructor
  · rintro ⟨before, _, rfl, piece, after, rfl, htakes⟩
    exact ⟨before, piece, after, (List.append_assoc ..).symm, htakes⟩
  · rintro ⟨before, piece, after, rfl, htakes⟩
    exact ⟨before, piece ++ after, List.append_assoc .., piece, after, rfl, htakes⟩

instance (atoms : List Atom) (text : List Char) : Decidable (Occurs atoms text) :=
  decidable_of_iff _ exists_split_iff_occurs

/-! ## A library -/

/-- The characters that mean something in an expression. -/
def metacharacters : List Char := "\\.+*?()|[]\x7b\x7d^$#&-~".toList

/-- A character as a literal. -/
def escapeChar (c : Char) : List Char := if c ∈ metacharacters then ['\\', c] else [c]

/-- A text as literals. -/
def escape (text : String) : String := String.ofList (text.toList.flatMap escapeChar)

/-- The atoms that a source is written from. -/
def parse : List Char → List Atom
  | [] => []
  | '\\' :: c :: rest => .literal c :: parse rest
  | '.' :: '*' :: rest => .anyRun :: parse rest
  | '.' :: rest => .any :: parse rest
  | '^' :: rest => .start :: parse rest
  | '$' :: rest => .finish :: parse rest
  | c :: rest => .literal c :: parse rest

/-- Reads a source back into its atoms, if it is no longer than the limit. -/
def parseWithin (limit : Nat) (source : String) : Except String (List Atom) :=
  if source.length ≤ limit then .ok (parse source.toList)
  else .error "the expression is too large"

/-- **A library of its own**: sources up to a limit are read back into their atoms, and a text is
searched by trying all ways to split it. -/
def reference (limit : Nat) : Library where
  Expression := List Atom
  Failure := String
  escape := escape
  compile := parseWithin limit
  isMatch atoms text := decide (Occurs atoms text.toList)

/-- The characters of an atom as it is written. -/
def Atom.chars : Atom → List Char
  | start => ['^']
  | finish => ['$']
  | any => ['.']
  | anyRun => ['.', '*']
  | literal c => escapeChar c

theorem toList_spelling (atom : Atom) : (atom.spelling escape).toList = atom.chars := by
  cases atom with
  | start => simp [Atom.spelling, Atom.chars]
  | finish => simp [Atom.spelling, Atom.chars]
  | any => simp [Atom.spelling, Atom.chars]
  | anyRun => simp [Atom.spelling, Atom.chars]
  | literal c => simp [Atom.spelling, Atom.chars, escape]

theorem toList_spell (atoms : List Atom) : (spell escape atoms).toList = atoms.flatMap Atom.chars := by
  induction atoms with
  | nil => rfl
  | cons atom atoms ih => rw [spell, String.toList_append, toList_spelling, ih, List.flatMap_cons]

/-- **One atom is read back**, unless what follows is taken for a part of it. -/
theorem parse_chars (atom : Atom) {rest : List Char} (hrest : rest.head? ≠ some '*') :
    parse (atom.chars ++ rest) = atom :: parse rest := by
  cases atom with
  | start => rfl
  | finish => rfl
  | any =>
      cases rest with
      | nil => rfl
      | cons c rest =>
          have hc : c ≠ '*' := by simpa using hrest
          simp [Atom.chars, parse, hc]
  | anyRun => rfl
  | literal c =>
      rw [Atom.chars, escapeChar]
      split_ifs with hmeta
      · rfl
      · have hne : ∀ d ∈ metacharacters, c ≠ d := fun d hd heq => hmeta (heq ▸ hd)
        simp [parse, hne '\\' (by decide), hne '.' (by decide), hne '^' (by decide),
          hne '$' (by decide)]

/-- No atom is written with a `*` in front. -/
theorem head?_chars (atom : Atom) (rest : List Char) : (atom.chars ++ rest).head? ≠ some '*' := by
  cases atom with
  | start => simp [Atom.chars]
  | finish => simp [Atom.chars]
  | any => simp [Atom.chars]
  | anyRun => simp [Atom.chars]
  | literal c =>
      rw [Atom.chars, escapeChar]
      split_ifs with hmeta
      · simp
      · have hne : c ≠ '*' := fun heq => hmeta (heq ▸ by decide)
        simpa using hne

/-- **What is written from atoms is read back into them.** -/
theorem parse_flatMap_chars (atoms : List Atom) : parse (atoms.flatMap Atom.chars) = atoms := by
  induction atoms with
  | nil => rfl
  | cons atom atoms ih =>
      rw [List.flatMap_cons, parse_chars, ih]
      cases atoms with
      | nil => simp
      | cons next atoms => exact head?_chars next _

/-- **It gives expressions their standard meaning.** -/
theorem reference_standard (limit : Nat) :
    (reference limit).Standard fun source => source.length ≤ limit where
  compiles atoms hfits := by
    have hfits : (spell escape atoms).length ≤ limit := hfits
    have hparse : parseWithin limit (spell escape atoms) = .ok atoms := by
      rw [parseWithin, if_pos hfits, toList_spell, parse_flatMap_chars]
    exact ⟨atoms, hparse, fun text => decide_eq_true_iff⟩

end Regex

end PocketShell
