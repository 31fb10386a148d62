import PocketShell.Proofs.CommandLine.Splitting

set_option autoImplicit false

/-! # The words of a divided line

A line is divided at its operators first, and each command into words afterwards. The words
should be those of the line with a blank in the place of each operator (`blanked`).

The division alone keeps all words. But the parts of a chain lose the white space at their
ends before they are read further. At the start of a part that white space is always free. At
its end it need not be: it may be quoted, or follow a backslash, and then belongs to a word
that trimming cuts short. So the words of a line are the expected ones if and only if no part
of a chain ends with such white space (`words_parse_iff`).
-/

namespace PocketShell

/-- The name of a command and the words after it. -/
def Invocation.allWords (inv : Invocation) : List String := inv.name :: inv.words

/-- The words of the commands of a pipeline. -/
def Pipeline.words : Pipeline → List String
  | single command => command.allWords
  | piped stages => stages.flatMap Invocation.allWords

/-- The words of all commands of a line, from left to right. -/
def Line.words : Line → List String
  | pipeline command => command.words
  | chain segments => segments.flatMap fun segment => segment.command.words

namespace CommandLine

open PocketShell.Text (isBlank trimChars trailing)

/-- The line with a blank in the place of each operator. -/
def blanked (text : String) : String := String.ofList (blankOperators (marked {} text.toList))

/-- Whether the white space at the end of a text is free throughout. -/
def looseEnd (cs : List Char) : Bool :=
  ((marked {} cs).reverse.takeWhile fun cell => isBlank cell.1).all Prod.snd

/-- The parts of a chain, before they are trimmed; none if the line is no chain. -/
def chainParts (cs : List Char) : List (List Char) :=
  match splitChain (marked {} cs) with
  | (_, []) => []
  | (first, rest) => first :: rest.map Prod.snd

/-! ## What trimming loses -/

/-- A backslash stays in front of white space. -/
theorem adds_of_isBlank (m : Mode) {c : Char} (hc : isBlank c = true) :
    m.adds c = if m.escaped then ['\\', c] else [c] := by
  obtain ⟨hb, hq⟩ := Mode.isBlank_spec hc
  have hn : c ≠ 'n' := Text.ne_of_isBlank hc rfl
  have ht : c ≠ 't' := Text.ne_of_isBlank hc rfl
  simp [Mode.adds, unescape, hb, hq, hn, ht]

/-- The cells of white space, and of a backslash that waits before it: those that are no gaps
are the backslash and the characters that are not free. -/
theorem countP_cells_blanks (m : Mode) {cs : List Char} (h : ∀ c ∈ cs, isBlank c = true) :
    (cells m cs).countP Option.isSome
      = (cellsAtEnd m).countP Option.isSome + (marked m cs).countP fun cell => !cell.2 := by
  induction cs generalizing m with
  | nil => rfl
  | cons c cs ih =>
      rw [List.forall_mem_cons] at h
      rw [cells, marked, List.countP_append, ih _ h.2, List.countP_cons, adds_of_isBlank m h.1,
        Mode.step_of_isBlank m h.1, Mode.isFree_of_isBlank m h.1, h.1]
      -- a gap if nothing is open, a character in a quotation, two after a backslash
      obtain ⟨quote, escaped⟩ := m
      cases quote <;> cases escaped <;> simp [Mode.isPlain, cellsAtEnd] <;> omega

theorem blankPipes_eq (cs : List Char) :
    blankPipes {} cs = cs.takeWhile isBlank ++ (blankPipes {} (trimChars cs) ++ trailing cs) := by
  calc blankPipes {} cs
      = blankPipes {} (cs.takeWhile isBlank ++ (trimChars cs ++ trailing cs)) := by
        rw [← List.append_assoc, ← Text.eq_trimChars]
    _ = _ := by
        rw [blankPipes_append, blankPipes_of_isBlank _ fun c => Text.isBlank_of_mem_takeWhile,
          Mode.after_blanks fun c => Text.isBlank_of_mem_takeWhile, blankPipes_append,
          blankPipes_of_isBlank _ fun c => Text.isBlank_of_mem_trailing]

/-- The words of a text, without the white space before them. -/
theorem wordsOf_blankPipes (cs : List Char) :
    wordsOf (blankPipes {} cs)
      = wordsIn (cellsBefore {} (blankPipes {} (trimChars cs))
          ++ cells (Mode.after {} (trimChars cs)) (trailing cs)) := by
  rw [wordsOf_eq, blankPipes_eq, cells_append,
    cellsBefore_blanks fun c => Text.isBlank_of_mem_takeWhile,
    Mode.after_blanks fun c => Text.isBlank_of_mem_takeWhile, wordsIn_gaps_append, cells_append,
    after_blankPipes]

theorem wordsOf_blankPipes_trimChars (cs : List Char) :
    wordsOf (blankPipes {} (trimChars cs))
      = wordsIn (cellsBefore {} (blankPipes {} (trimChars cs))
          ++ cellsAtEnd (Mode.after {} (trimChars cs))) := by
  rw [wordsOf_eq, cells_eq, after_blankPipes]

/-- Cutting off white space loses the characters that are not free. -/
theorem letters_trimChars (cs : List Char) :
    letters (wordsOf (blankPipes {} cs))
      = letters (wordsOf (blankPipes {} (trimChars cs)))
        + (marked (Mode.after {} (trimChars cs)) (trailing cs)).countP fun cell => !cell.2 := by
  rw [wordsOf_blankPipes, wordsOf_blankPipes_trimChars, letters_wordsIn, letters_wordsIn,
    List.countP_append, List.countP_append,
    countP_cells_blanks _ fun c => Text.isBlank_of_mem_trailing, Nat.add_assoc]

theorem looseEnd_iff (cs : List Char) :
    looseEnd cs = true
      ↔ ∀ cell ∈ marked (Mode.after {} (trimChars cs)) (trailing cs), cell.2 = true := by
  have hsplit : marked {} cs = marked {} (cs.takeWhile isBlank ++ trimChars cs)
      ++ marked (Mode.after {} (trimChars cs)) (trailing cs) := by
    conv_lhs => rw [Text.eq_trimChars cs]
    rw [marked_append, Mode.after_append,
      Mode.after_blanks fun c => Text.isBlank_of_mem_takeWhile]
  have hblank : ∀ cell ∈ (marked (Mode.after {} (trimChars cs)) (trailing cs)).reverse,
      isBlank cell.1 = true := by
    intro cell hcell
    refine @Text.isBlank_of_mem_trailing cs _ ?_
    rw [← map_fst_marked (Mode.after {} (trimChars cs)) (trailing cs)]
    exact List.mem_map_of_mem (List.mem_reverse.mp hcell)
  have hrest : ((marked {} (cs.takeWhile isBlank ++ trimChars cs)).reverse.takeWhile
      fun cell => isBlank cell.1).all Prod.snd = true := by
    cases hcore : trimChars cs with
    | nil =>
        -- all of the text is white space, and free since nothing is open before it
        rw [List.append_nil, List.all_eq_true]
        intro cell hcell
        have hmem := List.mem_reverse.mp (List.takeWhile_subset _ hcell)
        exact marked_blanks (fun c => Text.isBlank_of_mem_takeWhile) cell hmem
    | cons c core =>
        -- the text does not end with white space
        have hend := Text.takeWhile_reverse_trimChars cs
        rw [hcore] at hend
        have hnil : ((marked {} (cs.takeWhile isBlank ++ c :: core)).reverse.takeWhile
            (isBlank ∘ Prod.fst)).map Prod.fst = [] := by
          rw [← List.takeWhile_map, List.map_reverse, map_fst_marked, List.reverse_append,
            List.takeWhile_append, hend, if_neg (by simp)]
        rw [List.map_eq_nil_iff] at hnil
        show (List.takeWhile (isBlank ∘ Prod.fst) _).all Prod.snd = true
        rw [hnil]
        rfl
  rw [looseEnd, hsplit, List.reverse_append, List.takeWhile_append_of_pos hblank, List.all_append,
    hrest, Bool.and_true, List.all_reverse, List.all_eq_true]

/-- **White space that is free throughout can be cut off.** -/
theorem wordsOf_trimChars {cs : List Char} (h : looseEnd cs = true) :
    wordsOf (blankPipes {} (trimChars cs)) = wordsOf (blankPipes {} cs) := by
  rw [looseEnd_iff] at h
  rw [wordsOf_blankPipes_trimChars, wordsOf_blankPipes]
  have hblank : ∀ c ∈ trailing cs, isBlank c = true := fun c => Text.isBlank_of_mem_trailing
  generalize trailing cs = trail at h hblank ⊢
  cases trail with
  | nil => rfl
  | cons c trail =>
      -- the first character is free, so nothing is open and all of it are gaps
      rw [marked, List.forall_mem_cons] at h
      obtain ⟨hm, -, -⟩ := Mode.isFree_iff.mp h.1
      rw [hm, cells_eq, Mode.after_blanks hblank, cellsBefore_blanks hblank]
      show wordsIn (_ ++ []) = wordsIn (_ ++ (_ ++ []))
      rw [List.append_nil, List.append_nil, wordsIn_append_gaps]

/-- Cutting off white space loses no character only if it is free. -/
theorem looseEnd_of_letters_le {cs : List Char}
    (h : letters (wordsOf (blankPipes {} cs)) ≤ letters (wordsOf (blankPipes {} (trimChars cs)))) :
    looseEnd cs = true := by
  rw [letters_trimChars] at h
  have hnone := List.countP_eq_zero.mp (Nat.le_zero.mp (Nat.le_of_add_le_add_left h))
  rw [looseEnd_iff]
  intro cell hcell
  simpa using hnone cell hcell

theorem letters_trimChars_le (cs : List Char) :
    letters (wordsOf (blankPipes {} (trimChars cs))) ≤ letters (wordsOf (blankPipes {} cs)) := by
  rw [letters_trimChars cs]
  exact Nat.le_add_right _ _

/-- **Trimming all parts keeps the words if and only if no part loses any.** -/
theorem flatMap_trimChars_iff (parts : List (List Char)) :
    (parts.flatMap fun part => wordsOf (blankPipes {} (trimChars part)))
        = (parts.flatMap fun part => wordsOf (blankPipes {} part))
      ↔ ∀ part ∈ parts, looseEnd part = true := by
  constructor
  · -- what one part loses no other part makes up for
    intro h
    have hletters := (congrArg letters h).ge
    clear h
    induction parts with
    | nil => exact fun part hpart => absurd hpart List.not_mem_nil
    | cons part parts ih =>
        have hle : letters (parts.flatMap fun part => wordsOf (blankPipes {} (trimChars part)))
            ≤ letters (parts.flatMap fun part => wordsOf (blankPipes {} part)) := by
          clear ih hletters
          induction parts with
          | nil => exact Nat.le_refl _
          | cons part parts ih =>
              rw [List.flatMap_cons, List.flatMap_cons, letters_append, letters_append]
              exact Nat.add_le_add (letters_trimChars_le part) ih
        have hpart := letters_trimChars_le part
        rw [List.flatMap_cons, List.flatMap_cons, letters_append, letters_append] at hletters
        rw [List.forall_mem_cons]
        exact ⟨looseEnd_of_letters_le (by omega), ih (by omega)⟩
  · intro h
    have heq : ∀ part ∈ parts, wordsOf (blankPipes {} (trimChars part))
        = wordsOf (blankPipes {} part) := fun part hpart => wordsOf_trimChars (h part hpart)
    rw [List.flatMap_def, List.flatMap_def, List.map_congr_left heq]

/-! ## The words of the commands -/

theorem allWords_ofChars? {text : List Char} {command : Invocation}
    (h : Invocation.ofChars? text = some command) :
    command.allWords = (wordsOf text).map String.ofList := by
  rw [Invocation.ofChars?] at h
  split at h
  · cases h
  · next name words heq =>
      obtain rfl := Option.some.inj h
      rw [heq]
      rfl

theorem allWords_laterStages {stages : List (Nat × List Char)} {commands : List Invocation}
    (h : laterStages stages = .ok commands) :
    commands.flatMap Invocation.allWords
      = (stages.flatMap fun stage => wordsOf stage.2).map String.ofList := by
  induction stages generalizing commands with
  | nil =>
      obtain rfl := Except.ok.inj h
      rfl
  | cons stage stages ih =>
      obtain ⟨pipe, text⟩ := stage
      cases stages with
      | nil =>
          rw [laterStages] at h
          cases hc : Invocation.ofChars? text with
          | none =>
              rw [hc] at h
              cases h
          | some command =>
              rw [hc] at h
              obtain rfl := Except.ok.inj h
              simp [allWords_ofChars? hc]
      | cons next stages =>
          rw [laterStages] at h
          cases hc : Invocation.ofChars? text with
          | none =>
              rw [hc] at h
              cases h
          | some command =>
              rw [hc] at h
              obtain ⟨rest, hl, rfl⟩ := exists_of_map_ok h
              rw [List.flatMap_cons, List.flatMap_cons, List.map_append, ih hl,
                allWords_ofChars? hc]

/-- **The words of a pipeline** are those of its text with a blank for each pipe. -/
theorem words_pipelineOf {cs : List Char} {pipeline : Pipeline}
    (h : pipelineOf cs = .ok pipeline) :
    pipeline.words = (wordsOf (blankPipes {} cs)).map String.ofList := by
  have hwords : wordsOf (blankPipes {} cs)
      = wordsOf (splitPipes 0 (marked {} cs)).1
        ++ (splitPipes 0 (marked {} cs)).2.flatMap fun stage => wordsOf stage.2 := by
    rw [wordsOf_eq, cells_blankPipes {} 0, wordsIn_pieces]
    rfl
  rw [hwords, List.map_append]
  rw [pipelineOf] at h
  generalize splitPipes 0 (marked {} cs) = stages at h ⊢
  obtain ⟨text, more⟩ := stages
  cases hc : Invocation.ofChars? text with
  | none =>
      cases more <;> simp only [hc] at h <;> cases h
  | some command =>
      cases more with
      | nil =>
          simp only [hc] at h
          obtain rfl := Except.ok.inj h
          rw [List.flatMap_nil, List.map_nil, List.append_nil]
          exact allWords_ofChars? hc
      | cons stage more =>
          simp only [hc] at h
          obtain ⟨rest, hl, rfl⟩ := exists_of_map_ok h
          rw [← allWords_laterStages hl, ← allWords_ofChars? hc]
          rfl

/-- The words of the segments of a chain. -/
theorem words_segmentsOf {texts : List (List Char × Option Separator)} {segments : List Segment}
    (h : segmentsOf texts = .ok segments) :
    (segments.flatMap fun segment => segment.command.words)
      = (texts.flatMap fun text => wordsOf (blankPipes {} text.1)).map String.ofList := by
  induction texts generalizing segments with
  | nil =>
      obtain rfl := Except.ok.inj h
      rfl
  | cons text texts ih =>
      obtain ⟨command, hp, h⟩ := exists_of_bind_ok h
      obtain ⟨rest, hs, h⟩ := exists_of_bind_ok h
      obtain rfl := Except.ok.inj h
      rw [List.flatMap_cons, List.flatMap_cons, List.map_append, ← ih hs, words_pipelineOf hp]

theorem map_fst_withSeparators (first : List Char) (rest : List (Separator × List Char)) :
    (withSeparators first rest).map Prod.fst = first :: rest.map Prod.snd := by
  induction rest generalizing first with
  | nil => rfl
  | cons part rest ih =>
      rw [withSeparators, List.map_cons, ih]
      rfl

/-- Segments of which nothing is left have no words. -/
theorem words_segmentTexts (first : List Char) (rest : List (Separator × List Char)) :
    ((segmentTexts first rest).flatMap fun text => wordsOf (blankPipes {} text.1))
      = (first :: rest.map Prod.snd).flatMap
          fun part => wordsOf (blankPipes {} (trimChars part)) := by
  rw [segmentTexts, ← map_fst_withSeparators, List.flatMap_map]
  induction withSeparators first rest with
  | nil => rfl
  | cons text texts ih =>
      rw [List.map_cons, List.filter_cons, List.flatMap_cons, ← ih]
      split_ifs with hkeep
      · rw [List.flatMap_cons]
      · have hnil : trimChars text.1 = [] := by simpa using hkeep
        rw [hnil]
        rfl

/-! ## The result -/

/-- **The words of a line** are those of the line with a blank for each operator, if and only
if every part of a chain ends without white space, or with white space that is free. -/
theorem words_parse_iff {text : String} {line : Line} (h : parse text = .ok line) :
    line.words = words (blanked text)
      ↔ ∀ part ∈ chainParts text.toList, looseEnd part = true := by
  have hinj : Function.Injective (List.map String.ofList) :=
    List.map_injective_iff.mpr fun _ _ heq => String.ofList_injective heq
  have hblanked : words (blanked text)
      = (wordsOf (blankOperators (marked {} text.toList))).map String.ofList := by
    rw [words, blanked, String.toList_ofList]
  have hcells := cells_blankOperators {} text.toList
  rw [hblanked, wordsOf_eq, hcells, wordsIn_pieces]
  rw [parse, lineOf] at h
  rw [chainParts]
  generalize hsplit : splitChain (marked {} text.toList) = parts at h ⊢
  obtain ⟨first, rest⟩ := parts
  cases rest with
  | nil =>
      have hfirst := splitChain_of_nil {} text.toList (by rw [hsplit])
      rw [hsplit] at hfirst
      obtain rfl : first = text.toList := hfirst
      obtain ⟨pipeline, hp, rfl⟩ := exists_of_map_ok h
      rw [List.flatMap_nil, List.append_nil]
      exact ⟨fun _ part hpart => absurd hpart List.not_mem_nil, fun _ => words_pipelineOf hp⟩
  | cons part rest =>
      obtain ⟨segments, hs, rfl⟩ := exists_of_map_ok h
      have hwords : (Line.chain segments).words
          = ((first :: (part :: rest).map Prod.snd).flatMap
              fun part => wordsOf (blankPipes {} (trimChars part))).map String.ofList := by
        rw [← words_segmentTexts, ← words_segmentsOf hs]
        rfl
      have hall : (first :: (part :: rest).map Prod.snd).flatMap
            (fun part => wordsOf (blankPipes {} part))
          = wordsIn (cells {} (blankPipes {} first))
            ++ (part :: rest).flatMap fun p => wordsIn (cells {} (blankPipes {} p.2)) := by
        rw [List.flatMap_cons, List.flatMap_map]
        rfl
      rw [hwords, ← hall, hinj.eq_iff, flatMap_trimChars_iff]

/-- Free white space before a separator, and quoted white space that no part ends with. -/
theorem words_parse_quoted :
    ∃ line, parse "echo 'a; b' ; pwd | wc" = .ok line ∧
      line.words = words (blanked "echo 'a; b' ; pwd | wc") :=
  ⟨_, rfl, (words_parse_iff rfl).mpr (by decide)⟩

/-- A blank after a backslash is lost where a separator follows. -/
theorem words_parse_escaped_blank :
    ∃ line, parse "echo a\\ ; pwd" = .ok line ∧ line.words = ["echo", "a\\", "pwd"] ∧
      words (blanked "echo a\\ ; pwd") = ["echo", "a\\ ", "pwd"] ∧
      line.words ≠ words (blanked "echo a\\ ; pwd") :=
  ⟨_, rfl, by decide, by decide, by decide⟩

end CommandLine

end PocketShell
