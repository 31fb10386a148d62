import PocketShell.Proofs.Glob.Pieces
import PocketShell.Proofs.Glob.Regex

set_option autoImplicit false

/-! # Patterns as regular expressions

A pattern may also be compiled: it is rewritten as a regular expression between two anchors, and a
library of regular expressions does the rest. The library is a parameter here, of which no more is
asked than the standard meaning of what patterns use (`Regex.Library.Standard`).

An expression may match anywhere in a text. That a compiled pattern speaks of the whole name
and divides it into pieces follows from the anchors (`Glob.occurs_atomsOf`), so it accepts what the
rows of the matcher accept (`Glob.isMatch_iff_divides`).
-/

namespace PocketShell

namespace Glob

open Regex (Atom Library spell)

/-! ## Compiling a pattern -/

/-- The source for one character of a pattern. -/
def spelling (escape : String → String) (p : Char) : String :=
  if p = '*' then ".*"
  else if p = '?' then "."
  else escape (String.singleton p)

/-- The source that a pattern is compiled from, put together from left to right. -/
def source (escape : String → String) (pattern : String) : String :=
  pattern.toList.foldl (fun source p => source ++ spelling escape p) "^" ++ "$"

/-- A pattern with its compiled expression. -/
structure Compiled (library : Library) where
  pattern : String
  expression : library.Expression

/-- Compiles a pattern. -/
def compile (library : Library) (pattern : String) :
    Except library.Failure (Compiled library) :=
  (library.compile (source library.escape pattern)).map fun expression => { pattern, expression }

/-- Whether a compiled pattern accepts a name. -/
def Compiled.isMatch {library : Library} (g : Compiled library) (name : String) : Bool :=
  library.isMatch g.expression name

/-! ## What is compiled -/

/-- The atom for a character of a pattern. -/
def atomOf (p : Char) : Atom :=
  if p = '*' then .anyRun
  else if p = '?' then .any
  else .literal p

/-- The expression for a pattern. -/
def atomsOf (pattern : List Char) : List Atom := .start :: (pattern.map atomOf ++ [.finish])

theorem spelling_atomOf (escape : String → String) (p : Char) :
    (atomOf p).spelling escape = spelling escape p := by
  rw [atomOf, spelling]
  split_ifs <;> rfl

theorem foldl_spelling (escape : String → String) (pattern : List Char) (start : String) :
    pattern.foldl (fun source p => source ++ spelling escape p) start
      = start ++ spell escape (pattern.map atomOf) := by
  induction pattern generalizing start with
  | nil => exact (String.append_empty).symm
  | cons p pattern ih =>
      rw [List.foldl_cons, ih, List.map_cons, spell, spelling_atomOf, String.append_assoc]

/-- **The source is the expression for the pattern**, as it is written. -/
theorem source_eq_spell (escape : String → String) (pattern : String) :
    source escape pattern = spell escape (atomsOf pattern.toList) := by
  rw [source, foldl_spelling, atomsOf, spell, Regex.spell_append, String.append_assoc]
  rfl

/-! ## What it means -/

theorem takes_atomOf {p : Char} {before piece after : List Char} :
    (atomOf p).Takes before piece after ↔ StandsFor p piece := by
  rw [atomOf, StandsFor]
  split_ifs <;> rfl

/-- Up to the anchor at the end an expression takes what can be divided, and there is no more. -/
theorem takes_map_atomOf {pattern before piece after : List Char} :
    Regex.Takes (pattern.map atomOf ++ [.finish]) before piece after
      ↔ Divides pattern piece ∧ after = [] := by
  induction pattern generalizing before piece with
  | nil =>
      rw [divides_nil]
      constructor
      · rintro ⟨_, _, rfl, ⟨hafter, rfl⟩, rfl⟩
        exact ⟨rfl, hafter⟩
      · rintro ⟨rfl, rfl⟩
        exact ⟨[], [], rfl, ⟨rfl, rfl⟩, rfl⟩
  | cons p pattern ih =>
      rw [divides_cons]
      constructor
      · rintro ⟨first, rest, hpiece, hfirst, hrest⟩
        obtain ⟨hdivides, hafter⟩ := ih.mp hrest
        exact ⟨⟨first, rest, hpiece, takes_atomOf.mp hfirst, hdivides⟩, hafter⟩
      · rintro ⟨⟨first, rest, hpiece, hfirst, hdivides⟩, hafter⟩
        exact ⟨first, rest, hpiece, takes_atomOf.mpr hfirst, ih.mpr ⟨hdivides, hafter⟩⟩

/-- **Between the anchors the expression has to take the whole name.** -/
theorem occurs_atomsOf {pattern name : List Char} :
    Regex.Occurs (atomsOf pattern) name ↔ Divides pattern name := by
  constructor
  · rintro ⟨before, _, after, rfl, _, rest, rfl, ⟨rfl, rfl⟩, hrest⟩
    obtain ⟨hdivides, rfl⟩ := takes_map_atomOf.mp hrest
    simpa using hdivides
  · intro hdivides
    refine ⟨[], name, [], by simp, [], name, rfl, ⟨rfl, rfl⟩, ?_⟩
    exact takes_map_atomOf.mpr ⟨hdivides, rfl⟩

/-- **Matching a name is dividing it.** With a library that gives expressions their standard
meaning, every pattern whose source fits compiles, and the compiled pattern accepts a name exactly if
the name can be divided into pieces that the characters of the pattern stand for. That is what the
rows of the matcher find out. -/
theorem isMatch_iff_divides (library : Library) {fits : String → Prop}
    (h : library.Standard fits) (pattern : String)
    (hfits : fits (source library.escape pattern)) :
    ∃ g, compile library pattern = .ok g ∧ g.pattern = pattern ∧ ∀ name,
      (g.isMatch name = true ↔ Divides pattern.toList name.toList) ∧
      g.isMatch name = Glob.accepts { pattern } name := by
  have hsource := source_eq_spell library.escape pattern
  rw [hsource] at hfits
  obtain ⟨expression, hcompile, hmatch⟩ := h.compiles _ hfits
  refine ⟨{ pattern, expression }, ?_, rfl, fun name => ?_⟩
  · rw [compile, hsource, hcompile]
    rfl
  · have hiff : library.isMatch expression name = true ↔ Divides pattern.toList name.toList :=
      (hmatch name).trans occurs_atomsOf
    refine ⟨hiff, Bool.eq_iff_iff.mpr ?_⟩
    exact hiff.trans (accepts_iff_divides { pattern } name).symm

/-- A pattern with characters that mean something in expressions, on names with a letter of two bytes
and with a line feed. -/
theorem isMatch_iff_divides_brackets :
    let library := Regex.reference 20
    library.Standard (fun source => source.length ≤ 20) ∧
      source library.escape "[a]?*.md" = "^\\[a\\]..*\\.md$" ∧
      ∃ g, compile library "[a]?*.md" = .ok g ∧ g.isMatch "[a]é.b.md" = true ∧
        ¬ g.isMatch "a1.md" = true ∧ ¬ g.isMatch "[a]1\n.md" = true ∧
        ¬ g.isMatch "[a]1.md.txt" = true := by
  intro library
  have hstandard : library.Standard (fun source => source.length ≤ 20) :=
    Regex.reference_standard 20
  have hsource : source library.escape "[a]?*.md" = "^\\[a\\]..*\\.md$" := by decide +kernel
  obtain ⟨g, hcompile, -, hmatch⟩ :=
    isMatch_iff_divides library hstandard "[a]?*.md" (by rw [hsource]; decide +kernel)
  refine ⟨hstandard, hsource, g, hcompile, (hmatch _).1.mpr (by decide +kernel), ?_, ?_, ?_⟩
  · exact fun h => absurd ((hmatch _).1.mp h) (by decide +kernel)
  · exact fun h => absurd ((hmatch _).1.mp h) (by decide +kernel)
  · exact fun h => absurd ((hmatch _).1.mp h) (by decide +kernel)

end Glob

end PocketShell
