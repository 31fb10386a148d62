import PocketShell.Proofs.Expansion
import PocketShell.Proofs.Interleaving
import PocketShell.Proofs.Session.Filters
import PocketShell.Proofs.Text.Numeral
import Std.Data.String.ToNat

set_option autoImplicit false

/-! # Selecting lines

`grep` keeps the numbered lines that it selects (`Selection.numbered_eq_filter`), and the other way
round it keeps those that it does not select. So the two selections put the lines together again,
with their numbers or without (`Selection.interleaves_numbered`), and since the numbers grow along
the lines, merging by number gives all of them back. Selecting again from selected lines changes
nothing.

What is shown by each invocation is told in a session (`Session.grep_splits`), where the lines may
be those of a file or of the command before. -/

namespace PocketShell

/-- A text is found in another exactly if the other one has it as a stretch. -/
theorem Text.occursIn_iff (needle cs : List Char) :
    occursIn needle cs = true ↔ needle <:+: cs := by
  induction cs with
  | nil => rw [occursIn, List.isEmpty_iff, List.infix_nil]
  | cons c cs ih =>
      rw [occursIn, Bool.or_eq_true, List.isPrefixOf_iff_prefix, ih, List.infix_cons_iff]

/-! ## Numbered lines -/

namespace Builtin

/-- The lines with their numbers, counted from `first`. -/
def numberAll (first : Nat) (lines : List String) : List (Nat × String) :=
  (lines.zipIdx first).map Prod.swap

/-- A line as it is shown with its number. -/
def showNumbered (found : Nat × String) : String := s!"{found.1}:{found.2}"

/-- The number in front of a line that is shown with one. -/
def lineNumber (shown : String) : Nat :=
  match Text.cut? ':' shown.toList with
  | some (digits, _) => (Text.digits? digits).getD 0
  | none => 0

theorem lineNumber_showNumbered (found : Nat × String) :
    lineNumber (showNumbered found) = found.1 := by
  obtain ⟨number, line⟩ := found
  have htext : (showNumbered (number, line)).toList
      = Nat.toDigits 10 number ++ ':' :: line.toList := by
    show (toString number ++ ":" ++ line).toList = _
    rw [String.toList_append, String.toList_append, Nat.toString_eq_ofList_toDigits,
      String.toList_ofList, List.append_assoc]
    rfl
  have hcolon : ':' ∉ Nat.toDigits 10 number := fun hmem =>
    absurd (List.all_eq_true.mp (Text.all_isDigit_toDigits number) ':' hmem) (by decide)
  rw [lineNumber, htext, Text.cut?_append hcolon]
  dsimp only
  rw [Text.digits?_toDigits, Option.getD_some]

theorem map_showNumbered (lines : List String) :
    (numberAll 1 lines).map showNumbered
      = (lines.zipIdx 1).map fun (line, number) => s!"{number}:{line}" := by
  rw [numberAll, List.map_map]
  rfl

theorem map_fst_numberAll (first : Nat) (lines : List String) :
    (numberAll first lines).map Prod.fst = List.range' first lines.length := by
  rw [numberAll, List.map_map]
  exact List.zipIdx_map_snd first lines

theorem map_snd_numberAll (first : Nat) (lines : List String) :
    (numberAll first lines).map Prod.snd = lines := by
  rw [numberAll, List.map_map]
  exact List.zipIdx_map_fst first lines

/-- The numbers grow along the lines. -/
theorem pairwise_numberAll (first : Nat) (lines : List String) :
    (numberAll first lines).Pairwise fun a b => a.1 < b.1 := by
  rw [← List.pairwise_map, map_fst_numberAll]
  exact List.pairwise_lt_range'

/-! ## What is selected -/

/-- A text as it is compared: in lower case if case is ignored. -/
def folded (ignoreCase : Bool) (text : String) : String :=
  if ignoreCase then Text.lower text else text

/-- **The line has the pattern**, at any place. -/
def HasPattern (pattern : String) (ignoreCase : Bool) (line : String) : Prop :=
  (folded ignoreCase pattern).toList <:+: (folded ignoreCase line).toList

namespace Selection

variable (selection : Selection)

theorem hits_iff (line : String) :
    selection.hits line = true ↔ HasPattern selection.pattern selection.ignoreCase line := by
  rw [hits, HasPattern, folded, folded]
  split_ifs
  · exact Text.occursIn_iff _ _
  · exact Text.occursIn_iff _ _

/-- The selection of all other lines. -/
def inverted : Selection := { selection with invert := !selection.invert }

theorem selects_inverted (line : String) :
    selection.inverted.selects line = !selection.selects line := by
  rw [selects, selects, inverted]
  show (selection.hits line != !selection.invert) = !(selection.hits line != selection.invert)
  cases selection.hits line <;> cases selection.invert <;> rfl

/-- **The lines get their numbers before they are selected.** -/
theorem numbered_eq_filter (first : Nat) (lines : List String) :
    selection.numbered first lines
      = (numberAll first lines).filter fun found => selection.selects found.2 := by
  induction lines generalizing first with
  | nil => rfl
  | cons line rest ih =>
      have hcons : numberAll first (line :: rest)
          = (first, line) :: numberAll (first + 1) rest := rfl
      rw [numbered, ih, hcons, List.filter_cons]

theorem map_snd_numbered (first : Nat) (lines : List String) :
    (selection.numbered first lines).map Prod.snd = lines.filter selection.selects := by
  have hsnd := congrArg (List.filter selection.selects) (map_snd_numberAll first lines)
  rw [List.filter_map] at hsnd
  rw [numbered_eq_filter]
  exact hsnd

/-- **A selection and the inverted one put the numbered lines together.** -/
theorem interleaves_numbered (first : Nat) (lines : List String) :
    Interleaves (selection.numbered first lines) (selection.inverted.numbered first lines)
      (numberAll first lines) := by
  rw [numbered_eq_filter, numbered_eq_filter]
  simp only [selects_inverted]
  exact interleaves_filter _ _

/-! ## What is shown -/

theorem output_lines (lines : List String) :
    selection.output false false lines = lines.filter selection.selects :=
  selection.map_snd_numbered 1 lines

theorem output_numbered (lines : List String) :
    selection.output false true lines = (selection.numbered 1 lines).map showNumbered := rfl

theorem length_output (numbers : Bool) (lines : List String) :
    (selection.output false numbers lines).length = (selection.numbered 1 lines).length := by
  cases numbers
  · exact List.length_map _
  · exact List.length_map _

/-- **The count is that of the lines**, whether they are shown with their numbers or without. -/
theorem output_count (numbers shown : Bool) (lines : List String) :
    selection.output true numbers lines
      = [toString (selection.output false shown lines).length] := by
  rw [length_output]
  rfl

theorem interleaves_output (lines : List String) :
    Interleaves (selection.output false false lines) (selection.inverted.output false false lines)
      lines := by
  have hparts := (selection.interleaves_numbered 1 lines).map Prod.snd
  rwa [map_snd_numberAll] at hparts

/-- Without `-v` the lines that have the pattern are shown. -/
theorem mem_output_iff (h : selection.invert = false) (lines : List String) (line : String) :
    line ∈ selection.output false false lines
      ↔ line ∈ lines ∧ HasPattern selection.pattern selection.ignoreCase line := by
  rw [output_lines, List.mem_filter, selects, h, Bool.bne_false, hits_iff]

/-- No line is selected both ways, also not if it stands at several places. -/
theorem disjoint_output (lines : List String) :
    (selection.output false false lines).Disjoint
      (selection.inverted.output false false lines) := by
  rw [output_lines, output_lines]
  intro line hline hother
  have hselected := (List.mem_filter.mp hline).2
  have hnot := (List.mem_filter.mp hother).2
  rw [selects_inverted, hselected] at hnot
  cases hnot

/-- **Merging by line number gives all numbered lines.** -/
theorem merge_output (lines : List String) :
    (selection.output false true lines).merge (selection.inverted.output false true lines)
        (fun a b => lineNumber a ≤ lineNumber b)
      = (numberAll 1 lines).map showNumbered := by
  rw [output_numbered, output_numbered]
  refine ((selection.interleaves_numbered 1 lines).map showNumbered).merge_eq ?_
  -- what is shown stands in the order of the numbers that it starts with
  rw [List.pairwise_map]
  refine (pairwise_numberAll 1 lines).imp fun {a b} hlt => ?_
  rw [lineNumber_showNumbered, lineNumber_showNumbered]
  exact ⟨decide_eq_true (Nat.le_of_lt hlt), decide_eq_false (Nat.not_le_of_lt hlt)⟩

/-- Selected lines are all selected again. -/
theorem output_output (lines : List String) :
    selection.output false false (selection.output false false lines)
      = selection.output false false lines := by
  rw [output_lines, output_lines, List.filter_filter]
  simp only [Bool.and_self]

end Selection

/-! ## Invocations -/

/-- **The invocation asks `grep` for a selection**, of the lines of a file if one is named, and for
their count or their numbers. Its flags may be written in any way. -/
@[mk_iff]
structure Greps (inv : Invocation) (selection : Selection) (file : Option String)
    (count numbers : Bool) : Prop where
  name_eq : inv.name = "grep"
  pattern : inv.arg? 0 = some selection.pattern
  file : inv.arg? 1 = file
  ignoreCase : inv.hasFlag "i" = selection.ignoreCase
  invert : inv.hasFlag "v" = selection.invert
  count : inv.hasFlag "c" = count
  numbers : inv.hasFlag "n" = numbers

/-- The invocation asks `wc` for the number of lines. -/
@[mk_iff]
structure CountsLines (inv : Invocation) (file : Option String) : Prop where
  name_eq : inv.name = "wc"
  file : inv.arg? 0 = file
  lines : inv.hasFlag "l" = true

instance (inv : Invocation) (selection : Selection) (file : Option String) (count numbers : Bool) :
    Decidable (Greps inv selection file count numbers) :=
  decidable_of_iff' _ (greps_iff inv selection file count numbers)

instance (inv : Invocation) (file : Option String) : Decidable (CountsLines inv file) :=
  decidable_of_iff' _ (countsLines_iff inv file)

/-- **The lines that a filter reads**: those of the file that it names, or else of the command
before it. -/
def Supplies (files : FileSystem) (input : Option (List String)) (lines : List String) :
    Option String → Prop
  | some path => ∃ content, files.read path = .ok content ∧ Text.lines content = lines
  | none => input = some lines

theorem Shows.run_of_supplies {command : Command Handler} {inv : Invocation} {file : Option String}
    {shown : List String → List String} (h : Shows command inv file shown)
    {surroundings : Surroundings} {workspace : Workspace} {lines : List String}
    (hlines : Supplies workspace.files surroundings.input lines file) :
    ((command.action inv).run surroundings).run workspace
      = (.ok (.lines (shown lines)), workspace) := by
  cases file with
  | some path =>
      obtain ⟨content, hread, rfl⟩ := hlines
      rw [h.run_file, fileOutcome, hread]
  | none => exact h.run_input hlines workspace

namespace Greps

variable {inv : Invocation} {selection : Selection} {file : Option String} {count numbers : Bool}

theorem shows (h : Greps inv selection file count numbers) :
    Shows grep inv file (selection.output count numbers) := by
  have hshows := grep_shows h.pattern h.file
  rwa [h.ignoreCase, h.invert, h.count, h.numbers] at hshows

theorem starts (h : Greps inv selection file count numbers) : Starts grep inv := by
  refine ⟨by simp [commands, filterCommands], h.name_eq, fun _ hnone => ?_, rfl⟩
  have hpattern := h.pattern
  rw [Invocation.arg?, hnone] at hpattern
  cases hpattern

end Greps

namespace CountsLines

variable {inv : Invocation} {file : Option String}

theorem shows (h : CountsLines inv file) :
    Shows wc inv file fun lines => [toString lines.length] := by
  have hshows := wc_shows h.file
  rwa [h.lines] at hshows

theorem starts (h : CountsLines inv file) : Starts wc inv :=
  ⟨by simp [commands, filterCommands], h.name_eq,
    fun hrequires => absurd hrequires (by decide), rfl⟩

end CountsLines

end Builtin

/-! ## In a session -/

namespace Session

open Builtin

variable {session : Session} {workspace : Workspace} {input : Option (List String)}
  {file : Option String} {lines : List String}

theorem run_of_shows (h : session.registry = Builtin.registry) {command : Command Handler}
    {inv : Invocation} {shown : List String → List String} (hstarts : Starts command inv)
    (hshows : Shows command inv file shown) (hlines : Supplies workspace.files input lines file) :
    session.run workspace input inv = (.ok (.lines (shown lines)), workspace) :=
  (run_of_starts h hstarts workspace input).trans (hshows.run_of_supplies hlines)

/-- **`grep` splits its lines**, for every pattern, with `-i` or without. It selects the lines that
have the pattern. These and the ones that it selects with `-v` are all lines, each once, and no line
is selected both ways. The outputs with `-n`, merged by line number, are all lines with their
numbers. With `-c` an invocation shows how many lines it shows without, and the two counts add up to
what `wc -l` shows. If `grep` is given the lines that it has selected, from a file or from the
command before, it selects all of them. -/
theorem grep_splits (h : session.registry = Builtin.registry)
    (hlines : Supplies workspace.files input lines file) (pattern : String) (ignoreCase : Bool) :
    let shown (invert count numbers : Bool) : List String :=
      ({ pattern, ignoreCase, invert } : Selection).output count numbers lines
    (∀ grep invert count numbers, Greps grep { pattern, ignoreCase, invert } file count numbers →
        session.run workspace input grep = (.ok (.lines (shown invert count numbers)), workspace)) ∧
      (∀ line, line ∈ shown false false false
        ↔ line ∈ lines ∧ HasPattern pattern ignoreCase line) ∧
      Interleaves (shown false false false) (shown true false false) lines ∧
      (shown false false false).Disjoint (shown true false false) ∧
      (shown false false true).merge (shown true false true)
          (fun a b => lineNumber a ≤ lineNumber b)
        = (lines.zipIdx 1).map (fun (line, number) => s!"{number}:{line}") ∧
      (∀ invert numbers,
        shown invert true numbers = [toString (shown invert false numbers).length]) ∧
      (∃ found others : Nat,
        (∀ numbers, shown false true numbers = [toString found]) ∧
          (∀ numbers, shown true true numbers = [toString others]) ∧
          ∀ wc, CountsLines wc file →
            session.run workspace input wc
              = (.ok (.lines [toString (found + others)]), workspace)) ∧
      ∀ invert again workspace' input' file',
        Supplies workspace'.files input' (shown invert false false) file' →
          Greps again { pattern, ignoreCase, invert } file' false false →
            session.run workspace' input' again
              = (.ok (.lines (shown invert false false)), workspace') := by
  intro shown
  let selection : Selection := { pattern, ignoreCase }
  have hparts : Interleaves (shown false false false) (shown true false false) lines :=
    selection.interleaves_output lines
  have hcount (invert numbers again : Bool) :
      shown invert true numbers = [toString (shown invert false again).length] :=
    Selection.output_count _ numbers again lines
  refine ⟨?_, selection.mem_output_iff rfl lines, hparts, selection.disjoint_output lines, ?_,
    fun invert numbers => hcount invert numbers numbers, ?_, ?_⟩
  · intro grep invert count numbers hgreps
    exact run_of_shows h hgreps.starts hgreps.shows hlines
  · rw [← map_showNumbered]
    exact selection.merge_output lines
  · refine ⟨_, _, fun numbers => hcount false numbers false,
      fun numbers => hcount true numbers false, fun wc hwc => ?_⟩
    have hrun := run_of_shows h hwc.starts hwc.shows hlines
    rw [hparts.length_eq]
    exact hrun
  · intro invert again workspace' input' file' hlines' hagain
    have hrun := run_of_shows h hagain.starts hagain.shows hlines'
    rwa [Selection.output_output] at hrun

/-- Three lines of a file, two of them with the pattern in some letter case: both selections, the
one with its numbers and the other one counted, all lines counted, and the selected ones selected
again. -/
theorem grep_splits_file :
    ∃ files,
      FileSystem.ofRecord (.folder "" [.file "n" "Été: hot\nwinter\nl'été"]) = .ok files ∧
      let session := start Builtin.registry files .bare {}
      let run (input : Option (List String)) (name : String) (words : List String) :=
        session.run session.workspace input { name, words, raw := "" }
      run none "grep" ["-in", "ÉTÉ", "n"]
          = (.ok (.lines ["1:Été: hot", "3:l'été"]), session.workspace) ∧
        run none "grep" ["-v", "ÉTÉ", "-ic", "n"] = (.ok (.lines ["1"]), session.workspace) ∧
        run none "wc" ["-l", "n"] = (.ok (.lines ["3"]), session.workspace) ∧
        run (some ["Été: hot", "l'été"]) "grep" ["ÉTÉ", "-i"]
          = (.ok (.lines ["Été: hot", "l'été"]), session.workspace) := by
  refine ⟨_, rfl, ?_⟩
  intro session run
  let lines := ["Été: hot", "winter", "l'été"]
  let selection : Selection := { pattern := "ÉTÉ", ignoreCase := true }
  have hlines : Supplies session.workspace.files none lines (some "n") :=
    ⟨"Été: hot\nwinter\nl'été", by decide +kernel, by decide +kernel⟩
  have hregistry : session.registry = Builtin.registry := rfl
  obtain ⟨hgrep, -, -, -, -, -, ⟨found, others, hfound, hothers, hwc⟩, hagain⟩ :=
    grep_splits hregistry hlines "ÉTÉ" true
  have hselected : selection.output false false lines = ["Été: hot", "l'été"] := by
    decide +kernel
  refine ⟨?_, ?_, ?_, ?_⟩
  · have hnumbered : selection.output false true lines = ["1:Été: hot", "3:l'été"] := by
      decide +kernel
    rw [← hnumbered]
    exact hgrep _ false false true (by decide +kernel)
  · have hcounted : selection.inverted.output true false lines = ["1"] := by decide +kernel
    rw [← hcounted]
    exact hgrep _ true true false (by decide +kernel)
  · have htwo : [toString found] = ["2"] := (hfound false).symm.trans (by decide +kernel)
    have hone : [toString others] = ["1"] := (hothers false).symm.trans (by decide +kernel)
    obtain rfl : found = 2 := Nat.repr_injective (List.singleton_injective htwo)
    obtain rfl : others = 1 := Nat.repr_injective (List.singleton_injective hone)
    exact hwc _ (by decide +kernel)
  · rw [← hselected]
    exact hagain false _ session.workspace _ none rfl (by decide +kernel)

end Session

end PocketShell
