import PocketShell.Proofs.CommandLine.Quoting
import PocketShell.Proofs.CommandLine.Trimming

set_option autoImplicit false

/-! # The stages of a pipeline

A text is divided at its free pipes. The division is described without a reader: texts are the
stages of a pipeline if no pipe is free in any of them and each but the last ends where nothing
is open (`Stages`). A text has just one such division, the one that `splitPipes` finds
(`stages_stageTexts`, `stageTexts_intercalate`), and the text holds a pipeline if and only if
each of its stages holds a command (`pipelineOf_eq_ok_iff`).
-/

namespace PocketShell

/-- The pipeline with the given commands. -/
def Pipeline.ofStages : List Invocation → Pipeline
  | [command] => single command
  | stages => piped stages

@[simp] theorem Pipeline.stages_ofStages (stages : List Invocation) :
    (ofStages stages).stages = stages := by
  rcases stages with - | ⟨command, - | ⟨next, rest⟩⟩ <;> rfl

theorem Pipeline.text_ofStages (stages : List Invocation) :
    (ofStages stages).text = Text.join " | " (stages.map Invocation.raw) := by
  rcases stages with - | ⟨command, - | ⟨next, rest⟩⟩ <;> rfl

namespace CommandLine

open PocketShell.Text (isBlank trimChars)

/-! ## Texts without a free pipe -/

/-- No `|` of a text is free, read from the state `m`. -/
def NoPipe (m : Mode) (cs : List Char) : Prop :=
  ∀ cell ∈ marked m cs, cell.2 = true → cell.1 ≠ '|'

theorem noPipe_nil (m : Mode) : NoPipe m [] := fun _ hcell => absurd hcell List.not_mem_nil

theorem noPipe_cons {m : Mode} {c : Char} {cs : List Char} :
    NoPipe m (c :: cs) ↔ (m.isFree c && c == '|') = false ∧ NoPipe (m.step c) cs := by
  rw [NoPipe, marked, List.forall_mem_cons]
  refine and_congr_left fun _ => ?_
  cases m.isFree c <;> simp

theorem noPipe_append {m : Mode} {xs ys : List Char} :
    NoPipe m (xs ++ ys) ↔ NoPipe m xs ∧ NoPipe (m.after xs) ys := by
  rw [NoPipe, marked_append, List.forall_mem_append]
  rfl

theorem noPipe_blanks (m : Mode) {cs : List Char} (h : ∀ c ∈ cs, isBlank c = true) :
    NoPipe m cs := by
  intro cell hcell _
  have hmem : cell.1 ∈ cs := by
    rw [← map_fst_marked m cs]
    exact List.mem_map_of_mem hcell
  exact Text.ne_of_isBlank (h _ hmem) rfl

/-! ## The division -/

/-- The texts of the stages of a pipeline, read from the state `m`. -/
def stageTexts (m : Mode) (cs : List Char) : List (List Char) :=
  (splitPipes 0 (marked m cs)).1 :: (splitPipes 0 (marked m cs)).2.map Prod.snd

/-- The texts do not depend on where the positions start. -/
theorem splitPipes_texts (p q : Nat) (cells : List (Char × Bool)) :
    (splitPipes p cells).1 = (splitPipes q cells).1 ∧
      (splitPipes p cells).2.map Prod.snd = (splitPipes q cells).2.map Prod.snd := by
  induction cells generalizing p q with
  | nil => exact ⟨rfl, rfl⟩
  | cons cell cells ih =>
      obtain ⟨c, free⟩ := cell
      obtain ⟨hfirst, hmore⟩ := ih (p + c.utf8Size) (q + c.utf8Size)
      rw [splitPipes_cons, splitPipes_cons]
      split_ifs
      · exact ⟨rfl, by rw [List.map_cons, List.map_cons, hfirst, hmore]⟩
      · exact ⟨by rw [hfirst], hmore⟩

theorem stageTexts_cons (m : Mode) (c : Char) (cs : List Char) :
    stageTexts m (c :: cs)
      = if m.isFree c && c == '|' then [] :: stageTexts {} cs
        else (stageTexts (m.step c) cs).modifyHead (c :: ·) := by
  have hstep := splitPipes_texts (0 + c.utf8Size) 0 (marked (m.step c) cs)
  rw [stageTexts, marked, splitPipes_cons]
  split_ifs with hpipe
  · rw [Mode.step_of_isFree (Bool.and_eq_true_iff.mp hpipe).1] at hstep ⊢
    rw [List.map_cons, hstep.1, hstep.2]
    rfl
  · rw [hstep.1, hstep.2]
    rfl

/-- Texts that are the stages of a pipeline: no pipe is free in any of them, and each but the last
ends where nothing is open. The first one is read from the state `m`. -/
inductive Stages : Mode → List (List Char) → Prop
  | last {m : Mode} {text : List Char} (free : NoPipe m text) : Stages m [text]
  | more {m : Mode} {text : List Char} {rest : List (List Char)} (free : NoPipe m text)
      (closed : m.after text = {}) (hne : rest ≠ []) (others : Stages {} rest) :
      Stages m (text :: rest)

theorem Stages.ne_nil {m : Mode} {texts : List (List Char)} (h : Stages m texts) : texts ≠ [] := by
  cases h <;> exact List.cons_ne_nil _ _

/-- A character that is no pipe belongs to the first stage. -/
theorem Stages.modifyHead {m : Mode} {c : Char} {texts : List (List Char)}
    (hc : (m.isFree c && c == '|') = false) (h : Stages (m.step c) texts) :
    Stages m (texts.modifyHead (c :: ·)) := by
  cases h with
  | last free => exact .last (noPipe_cons.mpr ⟨hc, free⟩)
  | more free closed hne others => exact .more (noPipe_cons.mpr ⟨hc, free⟩) closed hne others

theorem intercalate_cons {mark : Char} (text : List Char) {rest : List (List Char)}
    (h : rest ≠ []) :
    [mark].intercalate (text :: rest) = text ++ mark :: [mark].intercalate rest := by
  cases rest with
  | nil => exact absurd rfl h
  | cons next rest => rw [List.intercalate_cons_cons, List.append_assoc, List.singleton_append]

theorem intercalate_modifyHead {mark : Char} (c : Char) {texts : List (List Char)}
    (h : texts ≠ []) :
    [mark].intercalate (texts.modifyHead (c :: ·)) = c :: [mark].intercalate texts := by
  rcases texts with - | ⟨text, - | ⟨next, rest⟩⟩
  · exact absurd rfl h
  · simp
  · rw [List.modifyHead_cons, intercalate_cons _ (List.cons_ne_nil _ _),
      intercalate_cons _ (List.cons_ne_nil _ _), List.cons_append]

/-- **A text is divided into stages**, which make up the text with the pipes between them. -/
theorem stages_stageTexts (m : Mode) (cs : List Char) :
    Stages m (stageTexts m cs) ∧ ['|'].intercalate (stageTexts m cs) = cs := by
  induction cs generalizing m with
  | nil => exact ⟨.last (noPipe_nil m), rfl⟩
  | cons c cs ih =>
      rw [stageTexts_cons]
      split_ifs with hpipe
      · -- a pipe is free only where nothing is open, so the stage before it is closed
        obtain ⟨hfree, hc⟩ := Bool.and_eq_true_iff.mp hpipe
        obtain ⟨rfl, -, -⟩ := Mode.isFree_iff.mp hfree
        obtain rfl := beq_iff_eq.mp hc
        obtain ⟨hstages, htext⟩ := ih {}
        refine ⟨.more (noPipe_nil _) rfl hstages.ne_nil hstages, ?_⟩
        rw [intercalate_cons _ hstages.ne_nil, htext, List.nil_append]
      · obtain ⟨hstages, htext⟩ := ih (m.step c)
        refine ⟨hstages.modifyHead (Bool.eq_false_of_not_eq_true hpipe), ?_⟩
        rw [intercalate_modifyHead _ hstages.ne_nil, htext]

theorem stageTexts_append_pipe {m : Mode} {text : List Char} (hfree : NoPipe m text)
    (hclosed : m.after text = {}) (cs : List Char) :
    stageTexts m (text ++ '|' :: cs) = text :: stageTexts {} cs := by
  induction text generalizing m with
  | nil =>
      obtain rfl : m = {} := hclosed
      rw [List.nil_append, stageTexts_cons]
      rfl
  | cons c text ih =>
      obtain ⟨hc, hrest⟩ := noPipe_cons.mp hfree
      rw [List.cons_append, stageTexts_cons, if_neg (by simp [hc]), ih hrest hclosed]
      rfl

theorem stageTexts_of_noPipe {m : Mode} {text : List Char} (h : NoPipe m text) :
    stageTexts m text = [text] := by
  rw [stageTexts, splitPipes_of_no_pipe 0 h, map_fst_marked]
  rfl

/-- **There is no other division into stages.** -/
theorem stageTexts_intercalate {m : Mode} {texts : List (List Char)} (h : Stages m texts) :
    stageTexts m (['|'].intercalate texts) = texts := by
  induction h with
  | last free => rw [List.intercalate_singleton, stageTexts_of_noPipe free]
  | more free closed hne others ih =>
      rw [intercalate_cons _ hne, stageTexts_append_pipe free closed, ih]

/-! ## The commands of the stages -/

theorem laterStages_eq_ok_iff {stages : List (Nat × List Char)} {commands : List Invocation} :
    laterStages stages = .ok commands
      ↔ List.Forall₂ (fun text command => Invocation.ofChars? text = some command)
          (stages.map Prod.snd) commands := by
  induction stages generalizing commands with
  | nil =>
      rw [List.map_nil, List.forall₂_nil_left_iff, laterStages]
      exact ⟨fun h => (Except.ok.inj h).symm, fun h => congrArg Except.ok h.symm⟩
  | cons stage stages ih =>
      obtain ⟨pipe, text⟩ := stage
      rw [List.map_cons, List.forall₂_cons_left_iff]
      -- the last stage and any other differ only in the error
      have hcons : laterStages ((pipe, text) :: stages) = .ok commands
          ↔ ∃ command, Invocation.ofChars? text = some command ∧
              ∃ rest, laterStages stages = .ok rest ∧ commands = command :: rest := by
        cases stages with
        | nil =>
            cases hc : Invocation.ofChars? text with
            | none => simp [laterStages, hc]
            | some command => simp [laterStages, hc, eq_comm]
        | cons next stages =>
            rw [laterStages]
            cases hc : Invocation.ofChars? text with
            | none => simp
            | some command =>
                cases laterStages (next :: stages) with
                | error e => simp [Except.map]
                | ok rest => simp [Except.map, eq_comm]
      rw [hcons]
      constructor
      · rintro ⟨command, hc, rest, hrest, rfl⟩
        exact ⟨command, rest, hc, ih.mp hrest, rfl⟩
      · rintro ⟨command, rest, hc, hrest, rfl⟩
        exact ⟨command, hc, rest, ih.mpr hrest, rfl⟩

/-- **A text holds a pipeline** if and only if each of its stages holds a command. -/
theorem pipelineOf_eq_ok_iff {cs : List Char} {pipeline : Pipeline} :
    pipelineOf cs = .ok pipeline
      ↔ ∃ commands, List.Forall₂ (fun text command => Invocation.ofChars? text = some command)
          (stageTexts {} cs) commands ∧ pipeline = Pipeline.ofStages commands := by
  simp only [stageTexts, List.forall₂_cons_left_iff, pipelineOf]
  generalize splitPipes 0 (marked {} cs) = stages
  obtain ⟨text, - | ⟨⟨pipe, next⟩, rest⟩⟩ := stages
  · cases hc : Invocation.ofChars? text with
    | none => simp [hc]
    | some command => simp [hc, Pipeline.ofStages, eq_comm]
  · have hlater := @laterStages_eq_ok_iff ((pipe, next) :: rest)
    cases hc : Invocation.ofChars? text with
    | none => simp [hc]
    | some command =>
        simp only [hc]
        constructor
        · intro h
          obtain ⟨commands, hl, rfl⟩ := exists_of_map_ok h
          obtain ⟨second, others, -, -, rfl⟩ := List.forall₂_cons_left_iff.mp (hlater.mp hl)
          exact ⟨_, ⟨command, _, rfl, hlater.mp hl, rfl⟩, rfl⟩
        · rintro ⟨-, ⟨first, commands, hfirst, hl, rfl⟩, rfl⟩
          obtain rfl := Option.some.inj hfirst
          obtain ⟨second, others, -, -, rfl⟩ := List.forall₂_cons_left_iff.mp hl
          rw [hlater.mpr hl]
          rfl

end CommandLine

end PocketShell
