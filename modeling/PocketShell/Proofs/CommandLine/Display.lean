import PocketShell.Proofs.CommandLine.Shown

set_option autoImplicit false

/-! # Showing a line and reading it again

The text of a line is read as the same line: with the same stages, segments and separators, and
each command has the same text (`Alike`). Its words may be others, since trimming can take white
space out of a word. A chain of one pipeline that no separator ends is shown as the pipeline alone,
and read as that (`Line.bare`). The chain without segments has no text that could be read.

What is read is moreover well formed (`Line.WellFormed`): the parts of the line that could be empty
are not. That no chain stands in a chain is part of the type `Segment`.
-/

namespace PocketShell

/-! ## Well-formed lines -/

/-- A command whose name and words are not empty. -/
def Invocation.WellFormed (inv : Invocation) : Prop := inv.name ≠ "" ∧ ∀ word ∈ inv.words, word ≠ ""

/-- A well-formed command, or at least two of them. -/
def Pipeline.WellFormed : Pipeline → Prop
  | single command => command.WellFormed
  | piped stages => 2 ≤ stages.length ∧ ∀ command ∈ stages, command.WellFormed

/-- A well-formed pipeline, or a chain of them in which only the last may lack a separator. -/
def Line.WellFormed : Line → Prop
  | pipeline command => command.WellFormed
  | chain segments =>
      (∀ segment ∈ segments, segment.command.WellFormed) ∧
        ∀ segment ∈ segments.dropLast, segment.separator ≠ none

/-! ## Lines that differ in words only -/

/-- The same stages, as far as their texts go. -/
inductive Pipeline.Alike : Pipeline → Pipeline → Prop
  | single {a b : Invocation} (raw : a.raw = b.raw) : Alike (single a) (single b)
  | piped {as bs : List Invocation} (raws : List.Forall₂ (fun a b => a.raw = b.raw) as bs) :
      Alike (piped as) (piped bs)

/-- Alike pipelines with the same separator. -/
structure Segment.Alike (a b : Segment) : Prop where
  command : a.command.Alike b.command
  separator : a.separator = b.separator

/-- The same segments, as far as their texts go. -/
inductive Line.Alike : Line → Line → Prop
  | pipeline {a b : Pipeline} (alike : a.Alike b) : Alike (pipeline a) (pipeline b)
  | chain {as bs : List Segment} (alike : List.Forall₂ Segment.Alike as bs) :
      Alike (chain as) (chain bs)

/-- A chain of one pipeline that no separator ends is the pipeline. -/
def Line.bare : Line → Line
  | chain [⟨command, none⟩] => pipeline command
  | line => line

theorem map_eq_of_forall₂ {α β γ : Type} {f : α → γ} {g : β → γ} {xs : List α} {ys : List β}
    (h : List.Forall₂ (fun x y => f x = g y) xs ys) : xs.map f = ys.map g := by
  induction h with
  | nil => rfl
  | cons hfirst _ ih => rw [List.map_cons, List.map_cons, hfirst, ih]

/-- **Alike pipelines have the same text.** -/
theorem Pipeline.Alike.text_eq {a b : Pipeline} (h : a.Alike b) : a.text = b.text := by
  cases h with
  | single raw => exact raw
  | piped raws => rw [Pipeline.text, Pipeline.text, map_eq_of_forall₂ raws]

theorem Segment.Alike.text_eq {a b : Segment} (h : a.Alike b) : a.text = b.text := by
  unfold Segment.text
  rw [h.separator, h.command.text_eq]

/-- **Alike lines have the same text.** -/
theorem Line.Alike.text_eq {a b : Line} (h : a.Alike b) : a.text = b.text := by
  cases h with
  | pipeline alike => exact alike.text_eq
  | chain alike =>
      have htexts := map_eq_of_forall₂ (alike.imp fun _ _ => Segment.Alike.text_eq)
      rw [Line.text, Line.text, htexts]

@[simp] theorem Line.text_bare (line : Line) : line.bare.text = line.text := by
  unfold Line.bare
  split <;> rfl

theorem Line.bare_chain {segments : List Segment}
    (h : ∀ command, segments ≠ [{ command, separator := none }]) :
    (Line.chain segments).bare = .chain segments := by
  unfold Line.bare
  split
  · next heq => exact absurd (Line.chain.inj heq) (h _)
  · rfl

theorem Pipeline.alike_ofStages {as bs : List Invocation}
    (h : List.Forall₂ (fun a b => a.raw = b.raw) as bs) : (ofStages as).Alike (ofStages bs) := by
  cases h with
  | nil => exact .piped .nil
  | cons hfirst hrest =>
      cases hrest with
      | nil => exact .single hfirst
      | cons hnext hmore => exact .piped (.cons hfirst (.cons hnext hmore))

theorem Pipeline.wellFormed_ofStages {stages : List Invocation} (hne : stages ≠ [])
    (h : ∀ command ∈ stages, command.WellFormed) : (ofStages stages).WellFormed := by
  rcases stages with - | ⟨command, - | ⟨next, rest⟩⟩
  · exact absurd rfl hne
  · exact h command List.mem_cons_self
  · exact ⟨by simp, h⟩

namespace CommandLine

open PocketShell.Text (isBlank trimChars)

/-! ## What is read is well formed -/

theorem wellFormed_of_ofChars? {text : List Char} {command : Invocation}
    (h : Invocation.ofChars? text = some command) : command.WellFormed := by
  have hall : ∀ word ∈ command.allWords, word ≠ "" := by
    rw [allWords_ofChars? h, List.forall_mem_map]
    intro word hword
    have hne : word ≠ [] := by simpa using List.of_mem_filter hword
    simpa using hne
  exact List.forall_mem_cons.mp hall

theorem wellFormed_pipelineOf {cs : List Char} {pipeline : Pipeline}
    (h : pipelineOf cs = .ok pipeline) : pipeline.WellFormed := by
  obtain ⟨commands, hcommands, rfl⟩ := pipelineOf_eq_ok_iff.mp h
  obtain ⟨first, rest, -, -, hne⟩ := List.forall₂_cons_left_iff.mp hcommands
  refine Pipeline.wellFormed_ofStages (by rw [hne]; exact List.cons_ne_nil _ _) ?_
  have hwell := hcommands.flip.imp fun _ _ htext => And.intro (wellFormed_of_ofChars? htext) htext
  exact ((List.forall₂_and_left _ _).mp hwell).1

theorem segmentsOf_eq_ok_iff {texts : List (List Char × Option Separator)}
    {segments : List Segment} :
    segmentsOf texts = .ok segments
      ↔ List.Forall₂ (fun text segment =>
          pipelineOf text.1 = .ok segment.command ∧ segment.separator = text.2)
          texts segments := by
  induction texts generalizing segments with
  | nil =>
      rw [List.forall₂_nil_left_iff, segmentsOf]
      exact ⟨fun h => (Except.ok.inj h).symm, fun h => congrArg Except.ok h.symm⟩
  | cons text texts ih =>
      rw [List.forall₂_cons_left_iff]
      constructor
      · intro h
        obtain ⟨command, hp, h⟩ := exists_of_bind_ok h
        obtain ⟨rest, hs, h⟩ := exists_of_bind_ok h
        exact ⟨_, rest, ⟨hp, rfl⟩, ih.mp hs, (Except.ok.inj h).symm⟩
      · rintro ⟨⟨command, separator⟩, rest, ⟨hp, hseparator⟩, hrest, rfl⟩
        obtain rfl : separator = text.2 := hseparator
        rw [segmentsOf_cons, hp, ih.mpr hrest]
        rfl

theorem Segmented.separator_ne_none {texts : List (List Char × Option Separator)}
    (h : Segmented texts) : ∀ text ∈ texts.dropLast, text.2 ≠ none := by
  induction h with
  | nil => simp
  | last isText => simp
  | @cons text separator rest isText unquoted others ih =>
      cases rest with
      | nil => simp
      | cons next rest =>
          rw [List.dropLast_cons_of_ne_nil (List.cons_ne_nil _ _), List.forall_mem_cons]
          exact ⟨Option.some_ne_none _, ih⟩

/-- **The segments that are read are well formed.** -/
theorem wellFormed_segmentsOf {texts : List (List Char × Option Separator)}
    {segments : List Segment} (h : Segmented texts) (hs : segmentsOf texts = .ok segments) :
    (Line.chain segments).WellFormed := by
  have hall := segmentsOf_eq_ok_iff.mp hs
  constructor
  · have hwell := hall.flip.imp fun _ _ htext => And.intro (wellFormed_pipelineOf htext.1) htext
    exact ((List.forall₂_and_left _ _).mp hwell).1
  · -- the separators are those of the texts
    have hseparators : segments.map Segment.separator = texts.map Prod.snd :=
      map_eq_of_forall₂ (hall.flip.imp fun _ _ htext => htext.2)
    intro segment hsegment
    have hmem : segment.separator ∈ texts.dropLast.map Prod.snd := by
      rw [List.map_dropLast, ← hseparators, ← List.map_dropLast]
      exact List.mem_map_of_mem hsegment
    obtain ⟨text, htext, heq⟩ := List.mem_map.mp hmem
    rw [← heq]
    exact h.separator_ne_none text htext

/-! ## Pipelines read again -/

theorem toList_join (texts : List (List Char)) :
    (Text.join " | " (texts.map String.ofList)).toList = [' ', '|', ' '].intercalate texts := by
  induction texts with
  | nil => rfl
  | cons text rest ih =>
      cases rest with
      | nil => simp [Text.join]
      | cons next rest =>
          rw [List.intercalate_cons_cons, ← ih]
          simp [Text.join]

theorem toList_text_of_pipelineOf {cs : List Char} {pipeline : Pipeline}
    (h : pipelineOf cs = .ok pipeline) :
    pipeline.text.toList = [' ', '|', ' '].intercalate ((stageTexts {} cs).map trimChars) := by
  obtain ⟨commands, hcommands, rfl⟩ := pipelineOf_eq_ok_iff.mp h
  have hraws : (stageTexts {} cs).map (String.ofList ∘ trimChars) = commands.map Invocation.raw :=
    map_eq_of_forall₂ (hcommands.imp fun _ _ htext => (raw_of_ofChars? htext).symm)
  rw [Pipeline.text_ofStages, ← hraws, ← List.map_map, toList_join]

/-- The text of a pipeline is that of its padded stages, after a blank. -/
theorem cons_toList_text {cs : List Char} {pipeline : Pipeline}
    (h : pipelineOf cs = .ok pipeline) :
    ' ' :: pipeline.text.toList
      = ['|'].intercalate (padded ((stageTexts {} cs).map trimChars)) := by
  rw [toList_text_of_pipelineOf h, intercalate_padded]
  exact List.cons_ne_nil _ _

/-- A blank before a text does not change its pipeline. -/
theorem pipelineOf_of_blank {cs : List Char} {pipeline : Pipeline}
    (h : pipelineOf (' ' :: cs) = .ok pipeline) : pipelineOf cs = .ok pipeline := by
  obtain ⟨commands, hcommands, rfl⟩ := pipelineOf_eq_ok_iff.mp h
  have hstages : stageTexts {} (' ' :: cs) = (stageTexts {} cs).modifyHead (' ' :: ·) :=
    stageTexts_cons {} ' ' cs
  rw [hstages] at hcommands
  obtain ⟨first, rest, hfirst, hrest, rfl⟩ := List.forall₂_cons_left_iff.mp hcommands
  exact pipelineOf_eq_ok_iff.mpr
    ⟨_, .cons ((ofChars?_blank _).symm.trans hfirst) hrest, rfl⟩

/-- Trimmed texts with pipes between them are a trimmed text. -/
theorem trimChars_intercalate {texts : List (List Char)} (hne : texts ≠ [])
    (h : ∀ text ∈ texts, text ≠ [] ∧ trimChars text = text) :
    [' ', '|', ' '].intercalate texts ≠ [] ∧
      trimChars ([' ', '|', ' '].intercalate texts) = [' ', '|', ' '].intercalate texts := by
  rw [Text.trimChars_eq_self_iff]
  induction texts with
  | nil => exact absurd rfl hne
  | cons text rest ih =>
      rw [List.forall_mem_cons, Text.trimChars_eq_self_iff] at h
      obtain ⟨⟨htext, hstart, hend⟩, hrest⟩ := h
      cases rest with
      | nil =>
          rw [List.intercalate_singleton]
          exact ⟨htext, hstart, hend⟩
      | cons next rest =>
          obtain ⟨hmore, -, hlast⟩ := ih (List.cons_ne_nil _ _) hrest
          rw [List.intercalate_cons_cons]
          obtain ⟨c, text, rfl⟩ := List.exists_cons_of_ne_nil htext
          refine ⟨by simp, hstart, ?_⟩
          rw [List.getLast?_append_of_ne_nil _ hmore]
          exact hlast

/-- The text of a pipeline is not empty and has no white space at its ends. -/
theorem trimChars_toList_text {cs : List Char} {pipeline : Pipeline}
    (h : pipelineOf cs = .ok pipeline) :
    pipeline.text.toList ≠ [] ∧ trimChars pipeline.text.toList = pipeline.text.toList := by
  obtain ⟨commands, hcommands, -⟩ := pipelineOf_eq_ok_iff.mp h
  have hne := hcommands.imp fun _ _ htext => And.intro (trimChars_ne_nil_of_ofChars? htext) htext
  have hstages : (stageTexts {} cs).map trimChars ≠ [] := by simp [stageTexts]
  rw [toList_text_of_pipelineOf h]
  apply trimChars_intercalate hstages
  rw [List.forall_mem_map]
  intro text htext
  exact ⟨((List.forall₂_and_left _ _).mp hne).1 text htext, Text.trimChars_trimChars text⟩

/-- **A pipeline is read again from its text.** -/
theorem exists_pipelineOf_text {cs : List Char} {pipeline : Pipeline}
    (hend : ∀ c ∈ cs.getLast?, isBlank c = false) (h : pipelineOf cs = .ok pipeline) :
    ∃ again, pipelineOf pipeline.text.toList = .ok again ∧ pipeline.Alike again := by
  obtain ⟨hstages, hcs⟩ := stages_stageTexts {} cs
  obtain ⟨commands, hcommands, rfl⟩ := pipelineOf_eq_ok_iff.mp h
  rw [← hcs] at hend
  obtain ⟨again, hagain, hraws⟩ := exists_commands_padded hstages hend hcommands
  refine ⟨Pipeline.ofStages again, pipelineOf_of_blank ?_, Pipeline.alike_ofStages hraws⟩
  rw [pipelineOf_eq_ok_iff, cons_toList_text h, stageTexts_intercalate (stages_padded hstages)]
  exact ⟨again, hagain, rfl⟩

/-- **The text of a pipeline leaves open** what the text it was read from does. -/
theorem after_text {cs : List Char} {pipeline : Pipeline}
    (hend : ∀ c ∈ cs.getLast?, isBlank c = false) (h : pipelineOf cs = .ok pipeline) :
    Mode.after {} pipeline.text.toList = Mode.after {} cs := by
  obtain ⟨hstages, hcs⟩ := stages_stageTexts {} cs
  rw [← hcs] at hend
  calc Mode.after {} pipeline.text.toList
      = Mode.after {} (' ' :: pipeline.text.toList) := rfl
    _ = Mode.after {} (['|'].intercalate (stageTexts {} cs)) := by
        rw [cons_toList_text h, after_padded hstages hend]
    _ = Mode.after {} cs := by rw [hcs]

/-- **The text of a pipeline can be that of a segment** if it was read from one. -/
theorem isSegmentText_text {cs : List Char} {pipeline : Pipeline} (hfree : NoSeparator {} cs)
    (h : pipelineOf cs = .ok pipeline) : IsSegmentText pipeline.text.toList := by
  obtain ⟨hstages, hcs⟩ := stages_stageTexts {} cs
  obtain ⟨hne, htrim⟩ := trimChars_toList_text h
  have hpadded := noSeparator_padded hstages (by rwa [hcs])
  rw [← cons_toList_text h, noSeparator_cons {} (by decide)] at hpadded
  exact ⟨hne, htrim, hpadded⟩

/-! ## Chains read again -/

/-- The text of a segment and its separator. -/
def shownSegment (segment : Segment) : List Char × Option Separator :=
  (segment.command.text.toList, segment.separator)

/-- The text that is shown for a segment, after a blank. -/
def segmentChars (text : List Char × Option Separator) : List Char :=
  ' ' :: (text.1 ++ text.2.elim [] fun separator => ' ' :: separator.text.toList)

/-- The text of a chain is that of its segments, after a blank. -/
theorem cons_toList_chain {segments : List Segment} (hne : segments ≠ []) :
    ' ' :: (Line.chain segments).text.toList = (segments.map shownSegment).flatMap segmentChars := by
  have hsegment : ∀ segment : Segment,
      ' ' :: segment.text.toList = segmentChars (shownSegment segment) := by
    rintro ⟨command, - | separator⟩
    · simp [Segment.text, segmentChars, shownSegment]
    · simp [Segment.text, segmentChars, shownSegment]
  induction segments with
  | nil => exact absurd rfl hne
  | cons segment rest ih =>
      cases rest with
      | nil =>
          rw [List.map_singleton, List.flatMap_singleton, ← hsegment]
          rfl
      | cons next rest =>
          have htext : (Line.chain (segment :: next :: rest)).text
              = segment.text ++ " " ++ (Line.chain (next :: rest)).text := rfl
          rw [List.map_cons, List.flatMap_cons, ← ih (List.cons_ne_nil _ _), ← hsegment, htext]
          simp

/-- A shown segment with a separator is divided off. -/
theorem splitChain_segmentChars {text : List Char} (htext : IsSegmentText text)
    (hquote : (Mode.after {} text).quote = none) (separator : Separator) (cs : List Char) :
    splitChain (marked {} (segmentChars (text, some separator) ++ cs))
      = (' ' :: (text ++ [' ']), (separator, (splitChain (marked {} cs)).1)
          :: (splitChain (marked {} cs)).2) := by
  have hchars : segmentChars (text, some separator) ++ cs
      = ' ' :: (text ++ ' ' :: (separator.text.toList ++ cs)) := by
    simp [segmentChars]
  have hblank : ∀ free, splitChain ((' ', free) :: marked {} (separator.text.toList ++ cs))
      = ([' '], (separator, (splitChain (marked {} cs)).1) :: (splitChain (marked {} cs)).2) := by
    intro free
    cases separator <;> rfl
  rw [hchars, splitChain_marked_cons {} (by decide), show Mode.step {} ' ' = {} from rfl,
    marked_append, marked, splitChain_append _ _ (by decide), htext.free.splitChain_eq,
    step_blank hquote, hblank]
  rfl

/-- **Shown segments are divided again** into their texts and separators. -/
theorem segmentTexts_segmentChars {texts : List (List Char × Option Separator)}
    (h : Segmented texts) :
    segmentTexts (splitChain (marked {} (texts.flatMap segmentChars))).1
        (splitChain (marked {} (texts.flatMap segmentChars))).2 = texts := by
  induction h with
  | nil => rfl
  | @last text isText =>
      have hchars : [(text, none)].flatMap segmentChars = ' ' :: text := by
        simp [segmentChars]
      rw [hchars, splitChain_marked_cons {} (by decide), show Mode.step {} ' ' = {} from rfl,
        isText.free.splitChain_eq, segmentTexts_nil, Text.trimChars_cons rfl, isText.trimmed,
        if_neg isText.ne_nil]
  | @cons text separator rest isText unquoted others ih =>
      rw [List.flatMap_cons, splitChain_segmentChars isText unquoted, segmentTexts_cons,
        Text.trimChars_cons rfl, Text.trimChars_concat rfl, isText.trimmed,
        if_neg isText.ne_nil, ih]
      rfl

/-- **The segments of a chain are read again** from their texts, which can be those of
segments. -/
theorem exists_segmentsOf_shown {texts : List (List Char × Option Separator)}
    {segments : List Segment} (h : Segmented texts) (hs : segmentsOf texts = .ok segments) :
    Segmented (segments.map shownSegment) ∧
      ∃ again, segmentsOf (segments.map shownSegment) = .ok again ∧
        List.Forall₂ Segment.Alike segments again := by
  induction h generalizing segments with
  | nil =>
      obtain rfl := Except.ok.inj hs
      exact ⟨.nil, [], rfl, .nil⟩
  | @last text isText =>
      obtain ⟨command, hp, hs⟩ := exists_of_bind_ok hs
      obtain rfl := Except.ok.inj hs
      have hend := (Text.trimChars_eq_self_iff.mp isText.trimmed).2
      obtain ⟨again, hagain, halike⟩ := exists_pipelineOf_text hend hp
      refine ⟨.last (isSegmentText_text isText.free hp), [⟨again, none⟩], ?_, ?_⟩
      · rw [List.map_singleton, segmentsOf_cons, shownSegment, hagain]
        rfl
      · exact .cons ⟨halike, rfl⟩ .nil
  | @cons text separator rest isText unquoted others ih =>
      obtain ⟨command, hp, hs⟩ := exists_of_bind_ok hs
      obtain ⟨more, hmore, hs⟩ := exists_of_bind_ok hs
      obtain rfl := Except.ok.inj hs
      have hend := (Text.trimChars_eq_self_iff.mp isText.trimmed).2
      obtain ⟨again, hagain, halike⟩ := exists_pipelineOf_text hend hp
      obtain ⟨hsegmented, rest, hrest, hrests⟩ := ih hmore
      have hquote : (Mode.after {} command.text.toList).quote = none := by
        rw [after_text hend hp]
        exact unquoted
      refine ⟨.cons (isSegmentText_text isText.free hp) hquote hsegmented,
        ⟨again, some separator⟩ :: rest, ?_, ?_⟩
      · rw [List.map_cons, segmentsOf_cons, shownSegment, hagain, hrest]
        rfl
      · exact .cons ⟨halike, rfl⟩ hrests

/-! ## The result -/

/-- A text that is divided nowhere is one pipeline. -/
theorem lineOf_of_noSeparator {cs : List Char} (h : NoSeparator {} cs) :
    lineOf cs = (pipelineOf cs).map .pipeline := by
  rw [lineOf, h.splitChain_eq]

/-- **A chain is read again from its text.** -/
theorem exists_parse_chain {texts : List (List Char × Option Separator)}
    {segments : List Segment} (h : Segmented texts) (hs : segmentsOf texts = .ok segments)
    (hne : segments ≠ []) :
    ∃ again, parse (Line.chain segments).text = .ok again ∧
      (Line.chain segments).bare.Alike again := by
  obtain ⟨hsegmented, again, hagain, halike⟩ := exists_segmentsOf_shown h hs
  by_cases hone : ∃ command, segments = [{ command, separator := none }]
  · -- the one pipeline is shown as it is, and no separator is free in its text
    obtain ⟨command, rfl⟩ := hone
    cases hsegmented with
    | last isText =>
        obtain ⟨bare, hp, hagain⟩ := exists_of_bind_ok hagain
        obtain rfl := Except.ok.inj hagain
        cases halike with
        | cons hfirst hrest =>
            refine ⟨.pipeline bare, ?_, .pipeline hfirst.command⟩
            show lineOf command.text.toList = _
            rw [lineOf_of_noSeparator isText.free, hp]
            rfl
  · have hbare := Line.bare_chain fun command heq => hone ⟨command, heq⟩
    have htexts := segmentTexts_segmentChars hsegmented
    rw [← cons_toList_chain hne, splitChain_marked_cons {} (by decide), segmentTexts_blank,
      show Mode.step {} ' ' = {} from rfl] at htexts
    -- without a separator there would be one text at most, which nothing ends
    have hsep : (splitChain (marked {} (Line.chain segments).text.toList)).2 ≠ [] := by
      intro hnil
      rw [hnil, segmentTexts_nil] at htexts
      split_ifs at htexts
      · exact hne (List.map_eq_nil_iff.mp htexts.symm)
      · obtain ⟨⟨command, separator⟩, rfl, hsegment⟩ := List.map_eq_singleton_iff.mp htexts.symm
        obtain rfl : separator = none := congrArg Prod.snd hsegment
        exact hone ⟨command, rfl⟩
    refine ⟨.chain again, ?_, ?_⟩
    · rw [parse, lineOf_of_ne_nil hsep, htexts, hagain]
      rfl
    · rw [hbare]
      exact .chain halike

/-- **Showing is undone by reading**, up to words. A line that is read is well formed; and if the text
is trimmed and something was read, then the text of the line is read as the same line, as far as the
texts of its commands go, and so has itself as its text. -/
theorem parse_text {text : String} {line : Line} (h : parse text = .ok line) :
    line.WellFormed ∧
      (Text.trim text = text → line ≠ .chain [] →
        ∃ again, parse line.text = .ok again ∧ again.text = line.text ∧
          line.bare.Alike again) := by
  have htext : ∀ again : Line, line.bare.Alike again → again.text = line.text := by
    intro again halike
    rw [← halike.text_eq, Line.text_bare]
  by_cases hsep : (splitChain (marked {} text.toList)).2 = []
  · -- one pipeline, and none of its separators is free when it is shown
    rw [parse, lineOf_of_noSeparator hsep] at h
    obtain ⟨pipeline, hp, rfl⟩ := exists_of_map_ok h
    refine ⟨wellFormed_pipelineOf hp, fun htrim _ => ?_⟩
    have hend := (Text.trimChars_eq_self_iff.mp (trimChars_toList htrim)).2
    obtain ⟨again, hagain, halike⟩ := exists_pipelineOf_text hend hp
    refine ⟨.pipeline again, ?_, htext _ (.pipeline halike), .pipeline halike⟩
    show lineOf pipeline.text.toList = _
    rw [lineOf_of_noSeparator (isSegmentText_text hsep hp).free, hagain]
    rfl
  · rw [parse, lineOf_of_ne_nil hsep] at h
    obtain ⟨segments, hs, rfl⟩ := exists_of_map_ok h
    have hsegmented := segmented_segmentTexts (parts_splitChain {} text.toList)
    refine ⟨wellFormed_segmentsOf hsegmented hs, fun _ hne => ?_⟩
    have hsegments : segments ≠ [] := fun hnil => hne (congrArg Line.chain hnil)
    obtain ⟨again, hagain, halike⟩ := exists_parse_chain hsegmented hs hsegments
    exact ⟨again, hagain, htext again halike, halike⟩

/-- A chain of one pipeline that nothing ends, with a stage whose text ends in a backslash and a
quotation that is not closed. -/
theorem parse_text_unclosed :
    ∃ line, parse "; ls\\ |grep 'a b" = .ok line ∧
      Text.trim "; ls\\ |grep 'a b" = "; ls\\ |grep 'a b" ∧ line ≠ .chain [] ∧
      line.WellFormed ∧
      ∃ again, parse line.text = .ok again ∧ again.text = line.text ∧ line.bare.Alike again := by
  obtain ⟨line, h, hne⟩ : ∃ line, parse "; ls\\ |grep 'a b" = .ok line ∧ line ≠ .chain [] :=
    ⟨_, rfl, by decide⟩
  have htrim : Text.trim "; ls\\ |grep 'a b" = "; ls\\ |grep 'a b" := by decide
  obtain ⟨hwell, hagain⟩ := parse_text h
  exact ⟨line, h, htrim, hne, hwell, hagain htrim hne⟩

end CommandLine

end PocketShell
