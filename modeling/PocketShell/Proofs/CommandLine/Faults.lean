import Mathlib.Data.String.Basic
import PocketShell.Proofs.CommandLine.Parts
import PocketShell.Proofs.CommandLine.Trimming

set_option autoImplicit false

/-! # The pipe at fault

An error in a pipeline is placed at one of its pipes. The position is counted in the text of the
pipeline, where there is a free pipe in that place (`pipeAt_pipelineOf`). In the line the text of the
pipeline stands somewhere: the pipelines of a line are listed together with the text before each
of them (`placedPipelines`), and the error is that of the first one that holds none (`fault?`,
`parse_eq_error_iff`). So the pipe at fault is found in the line when what stands before the pipeline
is counted as well (`pipeAt_fault`). The position alone leads to it only if nothing stands there.
-/

namespace PocketShell.CommandLine

open PocketShell.Text (isBlank trimChars trailing)

/-- A `|` outside quotations, and not taken out of its role, after the given number of bytes. -/
def PipeAt (cs : List Char) (offset : Nat) : Prop :=
  ∃ before after, cs = before ++ '|' :: after ∧ String.utf8Len before = offset ∧
    (Mode.after {} before).isPlain = true

/-- **A pipe in a part of a text** that is read from the start. -/
theorem PipeAt.append {before part : List Char} {offset : Nat} (h : PipeAt part offset)
    (hbefore : Mode.after {} before = {}) (rest : List Char) :
    PipeAt (before ++ part ++ rest) (String.utf8Len before + offset) := by
  obtain ⟨first, last, rfl, hlen, hplain⟩ := h
  refine ⟨before ++ first, last ++ rest, by simp, ?_, ?_⟩
  · rw [String.utf8Len_append, hlen]
  · rw [Mode.after_append, hbefore]
    exact hplain

/-! ## The position in the pipeline -/

/-- **The positions of the stages** are those of free pipes. -/
theorem pipe_of_mem_splitPipes {m : Mode} {position : Nat} {cs : List Char}
    {stage : Nat × List Char} (h : stage ∈ (splitPipes position (marked m cs)).2) :
    ∃ before after, cs = before ++ '|' :: after ∧
      stage.1 = position + String.utf8Len before ∧ (m.after before).isPlain = true := by
  induction cs generalizing m position with
  | nil => cases h
  | cons c cs ih =>
      rw [marked, splitPipes_cons] at h
      -- a pipe in the rest of the text is one of the whole text
      have hrest : stage ∈ (splitPipes (position + c.utf8Size) (marked (m.step c) cs)).2 →
          ∃ before after, c :: cs = before ++ '|' :: after ∧
            stage.1 = position + String.utf8Len before ∧ (m.after before).isPlain = true := by
        intro hmem
        obtain ⟨before, after, rfl, hposition, hplain⟩ := ih hmem
        refine ⟨c :: before, after, rfl, ?_, hplain⟩
        rw [hposition, String.utf8Len_cons]
        omega
      split_ifs at h with hpipe
      · obtain ⟨hfree, hc⟩ := Bool.and_eq_true_iff.mp hpipe
        obtain rfl := beq_iff_eq.mp hc
        rcases List.mem_cons.mp h with rfl | hmem
        · exact ⟨[], cs, rfl, rfl, Mode.isPlain_iff.mpr (Mode.isFree_iff.mp hfree).1⟩
        · exact hrest hmem
      · exact hrest h

/-- An error after the first stage is placed at one of the pipes. -/
theorem mem_of_laterStages_eq_error {stages : List (Nat × List Char)} {error : LineError}
    {position : Nat} (h : laterStages stages = .error error)
    (hposition : error.position? = some position) :
    position ∈ stages.map Prod.fst := by
  induction stages with
  | nil => cases h
  | cons stage stages ih =>
      obtain ⟨pipe, text⟩ := stage
      cases stages with
      | nil =>
          rw [laterStages] at h
          split at h
          · cases h
          · obtain rfl := Except.error.inj h
            obtain rfl := Option.some.inj hposition
            exact List.mem_cons_self
      | cons next stages =>
          rw [laterStages] at h
          split at h
          · exact List.mem_cons_of_mem _ (ih (map_eq_error_iff.mp h))
          · obtain rfl := Except.error.inj h
            obtain rfl := Option.some.inj hposition
            exact List.mem_cons_of_mem _ List.mem_cons_self

/-- **An error in a pipeline is placed at a free pipe** of its text. -/
theorem pipeAt_pipelineOf {cs : List Char} {error : LineError} {position : Nat}
    (h : pipelineOf cs = .error error) (hposition : error.position? = some position) :
    PipeAt cs position := by
  have hpipe : ∀ stage ∈ (splitPipes 0 (marked {} cs)).2, PipeAt cs stage.1 := by
    intro stage hmem
    obtain ⟨before, after, hcs, hstage, hplain⟩ := pipe_of_mem_splitPipes hmem
    exact ⟨before, after, hcs, by omega, hplain⟩
  rw [pipelineOf] at h
  generalize splitPipes 0 (marked {} cs) = stages at h hpipe
  obtain ⟨text, - | ⟨⟨pipe, next⟩, rest⟩⟩ := stages
  · -- without a pipe the error has no position
    dsimp only at h
    split at h
    · cases h
    · obtain rfl := Except.error.inj h
      cases hposition
  · dsimp only at h
    split at h
    · have hmem := mem_of_laterStages_eq_error (map_eq_error_iff.mp h) hposition
      obtain ⟨stage, hstage, rfl⟩ := List.mem_map.mp hmem
      exact hpipe stage hstage
    · obtain rfl := Except.error.inj h
      obtain rfl := Option.some.inj hposition
      exact hpipe (pipe, next) List.mem_cons_self

/-! ## Pipelines in their places -/

/-- What is left of a part of a chain, with the text before it. -/
def placed (before text : List Char) : List (List Char × List Char) :=
  if trimChars text = [] then [] else [(before ++ text.takeWhile isBlank, trimChars text)]

/-- What is left of the parts of a chain, each with the text before it. -/
def placedParts (before first : List Char) :
    List (Separator × List Char) → List (List Char × List Char)
  | [] => placed before first
  | (separator, next) :: rest =>
      placed before first ++ placedParts (before ++ first ++ separator.text.toList) next rest

/-- The texts of a line that are read as pipelines, each with the text before it. -/
def placedPipelines (cs : List Char) : List (List Char × List Char) :=
  match splitChain (marked {} cs) with
  | (_, []) => [([], cs)]
  | (first, rest) => placedParts [] first rest

/-- Whether a text holds no pipeline. -/
def isFaulty (text : List Char) : Bool :=
  match pipelineOf text with
  | .ok _ => false
  | .error _ => true

/-- The first text of a line that should hold a pipeline and does not, with the text before it. -/
def fault? (text : String) : Option (List Char × List Char) :=
  (placedPipelines text.toList).find? fun part => isFaulty part.2

theorem map_snd_placed (before text : List Char) :
    (placed before text).map Prod.snd = if trimChars text = [] then [] else [trimChars text] := by
  unfold placed
  split_ifs <;> rfl

/-- The placed parts of a chain are the texts of its segments. -/
theorem map_snd_placedParts (before first : List Char) (rest : List (Separator × List Char)) :
    (placedParts before first rest).map Prod.snd = (segmentTexts first rest).map Prod.fst := by
  induction rest generalizing before first with
  | nil =>
      rw [placedParts, map_snd_placed, segmentTexts_nil]
      split_ifs <;> rfl
  | cons part rest ih =>
      obtain ⟨separator, next⟩ := part
      rw [placedParts, List.map_append, map_snd_placed, ih, segmentTexts_cons, List.map_append]
      split_ifs <;> rfl

/-- A text that is part of a longer one and read there as if it stood alone. -/
def StandsIn (part : List Char × List Char) (cs : List Char) : Prop :=
  (∃ rest, cs = part.1 ++ part.2 ++ rest) ∧ Mode.after {} part.1 = {}

theorem standsIn_of_mem_placed {before text : List Char} {part : List Char × List Char}
    (hbefore : Mode.after {} before = {}) (h : part ∈ placed before text) (more : List Char) :
    StandsIn part (before ++ text ++ more) := by
  unfold placed at h
  split_ifs at h
  · cases h
  · obtain rfl := List.mem_singleton.mp h
    refine ⟨⟨trailing text ++ more, ?_⟩, ?_⟩
    · calc before ++ text ++ more
          = before ++ (text.takeWhile isBlank ++ trimChars text ++ trailing text) ++ more := by
            rw [← Text.eq_trimChars]
        _ = _ := by simp only [List.append_assoc]
    · rw [Mode.after_append, hbefore]
      exact Mode.after_blanks fun c => Text.isBlank_of_mem_takeWhile

theorem after_separator (separator : Separator) : Mode.after {} separator.text.toList = {} := by
  cases separator <;> rfl

/-- **The parts of a chain stand in the line** where they are placed. -/
theorem standsIn_of_mem_placedParts {before first : List Char} {rest : List (Separator × List Char)}
    {part : List Char × List Char} (hparts : Parts {} (withSeparators first rest))
    (hbefore : Mode.after {} before = {}) (h : part ∈ placedParts before first rest) :
    StandsIn part
      (before ++ first ++ rest.flatMap fun part => part.1.text.toList ++ part.2) := by
  induction rest generalizing before first with
  | nil => exact standsIn_of_mem_placed hbefore h _
  | cons next rest ih =>
      obtain ⟨separator, next⟩ := next
      cases hparts with
      | more free closed others =>
          rcases List.mem_append.mp h with hmem | hmem
          · exact standsIn_of_mem_placed hbefore hmem _
          · -- what stands before the next part ends where nothing is open
            have hnext : Mode.after {} (before ++ first ++ separator.text.toList) = {} := by
              rw [Mode.after_append, Mode.after_append, hbefore, closed, after_separator]
            have hstands := ih others hnext hmem
            simp only [List.flatMap_cons, List.append_assoc] at hstands ⊢
            exact hstands

/-- **The pipelines of a line stand in it** where they are placed. -/
theorem standsIn_of_mem_placedPipelines {cs : List Char} {part : List Char × List Char}
    (h : part ∈ placedPipelines cs) : StandsIn part cs := by
  have hcs := splitChain_eq {} cs
  have hparts := parts_splitChain {} cs
  unfold placedPipelines at h
  generalize splitChain (marked {} cs) = parts at h hcs hparts
  obtain ⟨first, - | ⟨next, rest⟩⟩ := parts
  · obtain rfl := List.mem_singleton.mp h
    exact ⟨⟨[], by simp⟩, rfl⟩
  · rw [hcs]
    exact standsIn_of_mem_placedParts hparts rfl h

/-! ## The first pipeline at fault -/

theorem isFaulty_of_eq_error {text : List Char} {error : LineError}
    (h : pipelineOf text = .error error) : isFaulty text = true := by
  unfold isFaulty
  rw [h]

theorem isFaulty_of_eq_ok {text : List Char} {pipeline : Pipeline}
    (h : pipelineOf text = .ok pipeline) : isFaulty text = false := by
  unfold isFaulty
  rw [h]

/-- The first text that holds no pipeline gives the error of a chain. -/
theorem segmentsOf_eq_error_iff {texts : List (List Char × Option Separator)}
    {error : LineError} :
    segmentsOf texts = .error error
      ↔ ∃ text, (texts.map Prod.fst).find? isFaulty = some text ∧
          pipelineOf text = .error error := by
  induction texts with
  | nil =>
      constructor
      · intro h
        cases h
      · rintro ⟨text, hfind, -⟩
        cases hfind
  | cons first texts ih =>
      rw [segmentsOf_cons, List.map_cons]
      cases hp : pipelineOf first.1 with
      | error other =>
          rw [List.find?_cons_of_pos (isFaulty_of_eq_error hp)]
          constructor
          · intro h
            obtain rfl := Except.error.inj h
            exact ⟨first.1, rfl, hp⟩
          · rintro ⟨text, hfind, h⟩
            obtain rfl := Option.some.inj hfind
            obtain rfl := Except.error.inj (hp.symm.trans h)
            rfl
      | ok command =>
          rw [List.find?_cons_of_neg (by simp [isFaulty_of_eq_ok hp]), ← ih]
          cases segmentsOf texts with
          | error other => exact Iff.rfl
          | ok segments =>
              constructor
              · intro h
                cases h
              · intro h
                cases h

theorem map_snd_placedPipelines (cs : List Char) :
    (placedPipelines cs).map Prod.snd = pipelineTexts cs := by
  unfold placedPipelines pipelineTexts
  generalize splitChain (marked {} cs) = parts
  obtain ⟨first, - | ⟨next, rest⟩⟩ := parts
  · rfl
  · exact map_snd_placedParts [] first (next :: rest)

theorem lineOf_eq_error_iff {cs : List Char} {error : LineError} :
    lineOf cs = .error error
      ↔ ∃ text, (pipelineTexts cs).find? isFaulty = some text ∧
          pipelineOf text = .error error := by
  unfold lineOf pipelineTexts
  generalize splitChain (marked {} cs) = parts
  obtain ⟨first, - | ⟨next, rest⟩⟩ := parts
  · dsimp only
    rw [map_eq_error_iff]
    constructor
    · intro h
      exact ⟨cs, List.find?_cons_of_pos (isFaulty_of_eq_error h), h⟩
    · rintro ⟨text, hfind, h⟩
      obtain rfl := List.mem_singleton.mp (List.mem_of_find?_eq_some hfind)
      exact h
  · dsimp only
    rw [map_eq_error_iff, segmentsOf_eq_error_iff]

/-- **The error of a line** is that of its first pipeline at fault. -/
theorem parse_eq_error_iff {text : String} {error : LineError} :
    parse text = .error error
      ↔ ∃ part, fault? text = some part ∧ pipelineOf part.2 = .error error := by
  have hfind : (pipelineTexts text.toList).find? isFaulty = (fault? text).map Prod.snd := by
    rw [← map_snd_placedPipelines, List.find?_map]
    rfl
  rw [parse, lineOf_eq_error_iff, hfind]
  constructor
  · rintro ⟨part, hpart, h⟩
    obtain ⟨placed, hplaced, rfl⟩ := Option.map_eq_some_iff.mp hpart
    exact ⟨placed, hplaced, h⟩
  · rintro ⟨placed, hplaced, h⟩
    exact ⟨placed.2, by rw [hplaced]; rfl, h⟩

/-- Nothing stands before the pipeline of a line that is no chain. -/
theorem eq_nil_of_mem_placedPipelines {cs : List Char} (h : chainParts cs = [])
    {part : List Char × List Char} (hpart : part ∈ placedPipelines cs) : part.1 = [] := by
  unfold chainParts at h
  unfold placedPipelines at hpart
  generalize splitChain (marked {} cs) = parts at h hpart
  obtain ⟨first, - | ⟨next, rest⟩⟩ := parts
  · obtain rfl := List.mem_singleton.mp hpart
    rfl
  · cases h

/-- **The pipe at fault stands in the line** where the position of the error leads from the start of
the first pipeline at fault. So the position leads to it from the start of the line if nothing stands
before that pipeline, as in a line that is no chain. -/
theorem pipeAt_fault {text : String} {error : LineError} {position : Nat}
    (h : parse text = .error error) (hposition : error.position? = some position) :
    ∃ part, fault? text = some part ∧ pipelineOf part.2 = .error error ∧
      PipeAt part.2 position ∧ PipeAt text.toList (String.utf8Len part.1 + position) ∧
      (chainParts text.toList = [] → part.1 = []) ∧
      (part.1 = [] → PipeAt text.toList position) := by
  obtain ⟨part, hfault, hpart⟩ := parse_eq_error_iff.mp h
  have hmem : part ∈ placedPipelines text.toList := List.mem_of_find?_eq_some hfault
  obtain ⟨⟨rest, htext⟩, hbefore⟩ := standsIn_of_mem_placedPipelines hmem
  have hpipe := pipeAt_pipelineOf hpart hposition
  have hline : PipeAt text.toList (String.utf8Len part.1 + position) := by
    rw [htext]
    exact hpipe.append hbefore rest
  refine ⟨part, hfault, hpart, hpipe, hline, fun hchain => ?_, fun hnil => ?_⟩
  · exact eq_nil_of_mem_placedPipelines hchain hmem
  · rw [hnil, String.utf8Len_nil, Nat.zero_add] at hline
    exact hline

/-- A chain whose second pipeline begins with a pipe, after white space and a character of two
bytes. -/
theorem pipeAt_fault_second :
    parse "echo é ;  | wc" = .error (.unexpectedPipe 0) ∧
      LineError.position? (.unexpectedPipe 0) = some 0 ∧
      ∃ part, fault? "echo é ;  | wc" = some part ∧
        pipelineOf part.2 = .error (.unexpectedPipe 0) ∧
        PipeAt part.2 0 ∧ PipeAt "echo é ;  | wc".toList (String.utf8Len part.1 + 0) ∧
        (chainParts "echo é ;  | wc".toList = [] → part.1 = []) ∧
        (part.1 = [] → PipeAt "echo é ;  | wc".toList 0) := by
  have h : parse "echo é ;  | wc" = .error (.unexpectedPipe 0) := by decide
  exact ⟨h, rfl, pipeAt_fault h rfl⟩

/-- The position of an error need not be that of a pipe of the line: the one of `a; | b` leads to its
first character, and its pipe stands after three bytes. -/
theorem position_misses_pipe :
    parse "a; | b" = .error (.unexpectedPipe 0) ∧
      LineError.position? (.unexpectedPipe 0) = some 0 ∧
      ¬ PipeAt "a; | b".toList 0 ∧ PipeAt "a; | b".toList 3 := by
  refine ⟨by decide, rfl, ?_, ?_⟩
  · rintro ⟨before, after, htext, hlen, -⟩
    cases before with
    | nil => exact absurd htext (by simp)
    | cons c before =>
        rw [String.utf8Len_cons] at hlen
        have hc := c.utf8Size_pos
        omega
  · exact ⟨['a', ';', ' '], [' ', 'b'], by decide, by decide, by decide⟩

end PocketShell.CommandLine
