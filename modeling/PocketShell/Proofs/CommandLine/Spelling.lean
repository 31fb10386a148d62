import PocketShell.Proofs.CommandLine.Quoting

set_option autoImplicit false

/-! # Texts that spell words

A text *spells* a word if the reader takes it for just this word, with nothing left open and no
operator in it (`Spells`). Characters without a role spell themselves, and so does the body of a
quotation in which there is neither a backslash nor the mark of the quotation. Texts written one
after the other spell the words in one (`Spells.append`), and texts with blanks between them are
the words of one command (`parse_of_spells`).
-/

namespace PocketShell.CommandLine

open PocketShell.Text (isBlank trimChars)

/-- Whether a text stands for a word: it begins and ends where nothing is open, adds the
characters of the word and no gap, and no operator of it is free. -/
structure Spells (text word : List Char) : Prop where
  after_eq : Mode.after {} text = {}
  cells_eq : cellsBefore {} text = word.map some
  no_operator : ∀ cell ∈ marked {} text, cell.2 = true → cell.1 ∉ ['|', ';', '&']

namespace Spells

variable {first second v w : List Char}

theorem nil : Spells [] [] := ⟨rfl, rfl, by simp [marked]⟩

/-- **One text after another.** -/
theorem append (hv : Spells first v) (hw : Spells second w) :
    Spells (first ++ second) (v ++ w) where
  after_eq := by rw [Mode.after_append, hv.after_eq, hw.after_eq]
  cells_eq := by
    rw [cellsBefore_append, hv.cells_eq, hv.after_eq, hw.cells_eq, List.map_append]
  no_operator := by
    rw [marked_append, hv.after_eq, List.forall_mem_append]
    exact ⟨hv.no_operator, hw.no_operator⟩

end Spells

/-! ## Characters without a role -/

/-- Whether a character stands for itself outside quotations. -/
def isOrdinary (c : Char) : Bool :=
  !isBlank c && !isQuote c && decide (c ∉ ['\\', '|', ';', '&'])

theorem spells_singleton {c : Char} (h : isOrdinary c = true) : Spells [c] [c] := by
  simp only [isOrdinary, Bool.and_eq_true, Bool.not_eq_true', decide_eq_true_eq,
    List.mem_cons (a := c) (b := '\\'), not_or] at h
  obtain ⟨⟨hblank, hq⟩, hb, hoperator⟩ := h
  constructor
  · show Mode.step {} c = {}
    simp [Mode.step, hb, hq]
  · simp [cellsBefore, Mode.adds, hblank, hb, hq]
  · intro cell hcell _
    rw [marked, marked, List.mem_singleton] at hcell
    rw [hcell]
    exact hoperator

/-- **Characters without a role spell themselves.** -/
theorem spells_ordinary {word : List Char} (h : ∀ c ∈ word, isOrdinary c = true) :
    Spells word word := by
  induction word with
  | nil => exact .nil
  | cons c word ih =>
      rw [List.forall_mem_cons] at h
      exact (spells_singleton h.1).append (ih h.2)

/-! ## Quotations -/

theorem after_body {mark : Char} {body : List Char} (h : ∀ c ∈ body, c ≠ '\\' ∧ c ≠ mark) :
    (quoted mark).after body = quoted mark := by
  induction body with
  | nil => rfl
  | cons c body ih =>
      rw [List.forall_mem_cons] at h
      rw [Mode.after_cons, step_quoted h.1.1 h.1.2, ih h.2]

theorem cellsBefore_body {mark : Char} {body : List Char}
    (h : ∀ c ∈ body, c ≠ '\\' ∧ c ≠ mark) :
    cellsBefore (quoted mark) body = body.map some := by
  induction body with
  | nil => rfl
  | cons c body ih =>
      rw [List.forall_mem_cons] at h
      rw [cellsBefore, isFree_quoted, adds_quoted h.1.1 h.1.2, step_quoted h.1.1 h.1.2, ih h.2]
      rfl

theorem marked_body {mark : Char} {body : List Char} (h : ∀ c ∈ body, c ≠ '\\' ∧ c ≠ mark) :
    ∀ cell ∈ marked (quoted mark) body, cell.2 = false := by
  induction body with
  | nil => simp [marked]
  | cons c body ih =>
      rw [List.forall_mem_cons] at h
      rw [marked, step_quoted h.1.1 h.1.2, List.forall_mem_cons]
      exact ⟨isFree_quoted mark c, ih h.2⟩

/-- A mark opens a quotation, closes its own, and adds nothing. -/
theorem mark_spec {mark : Char} (hmark : isQuote mark = true) :
    Mode.step {} mark = quoted mark ∧ Mode.adds {} mark = [] ∧
      (quoted mark).step mark = {} ∧ (quoted mark).adds mark = [] := by
  have hb : mark ≠ '\\' := by
    rintro rfl
    cases hmark
  simp [Mode.step, Mode.adds, Mode.toggle, quoted, hmark, hb]

/-- **A quotation spells its body**, whatever white space and operators are in it. -/
theorem spells_quotation {mark : Char} (hmark : isQuote mark = true) {body : List Char}
    (h : ∀ c ∈ body, c ≠ '\\' ∧ c ≠ mark) : Spells (mark :: (body ++ [mark])) body := by
  obtain ⟨hopen, hfirst, hclose, hlast⟩ := mark_spec hmark
  have hfree : Mode.isFree {} mark = false := by simp [Mode.isFree, hmark]
  constructor
  · rw [Mode.after_cons, hopen, Mode.after_append, after_body h]
    exact hclose
  · rw [cellsBefore, hopen, hfree, hfirst, cellsBefore_append, after_body h, cellsBefore_body h,
      cellsBefore, isFree_quoted, hlast]
    exact List.append_nil _
  · -- none of the characters is free
    rw [marked, hopen, marked_append, after_body h, List.forall_mem_cons, List.forall_mem_append]
    refine ⟨?_, ?_, ?_⟩
    · intro hf
      rw [hfree] at hf
      cases hf
    · intro cell hcell hf
      rw [marked_body h cell hcell] at hf
      cases hf
    · intro cell hcell hf
      rw [marked, marked, List.mem_singleton] at hcell
      rw [hcell, isFree_quoted] at hf
      cases hf

/-! ## Commands -/

/-- A line without a free operator is a single command. -/
theorem parse_of_no_operator {line : String}
    (hfree : ∀ cell ∈ marked {} line.toList, cell.2 = true → cell.1 ∉ ['|', ';', '&'])
    {name : String} {args : List String} (hwords : words line = name :: args) :
    parse line = .ok (.pipeline (.single { name, words := args, raw := Text.trim line })) := by
  have hchain : splitChain (marked {} line.toList) = (line.toList, []) := by
    rw [splitChain_of_no_separator, map_fst_marked]
    intro cell hcell hf
    have hoperator := hfree cell hcell hf
    simp only [List.mem_cons, not_or] at hoperator
    exact ⟨hoperator.2.1, hoperator.2.2.1⟩
  have hpipes : splitPipes 0 (marked {} line.toList) = (line.toList, []) := by
    rw [splitPipes_of_no_pipe, map_fst_marked]
    intro cell hcell hf
    exact fun hpipe => hfree cell hcell hf (by simp [hpipe])
  have hcommand : Invocation.ofChars? line.toList
      = some { name, words := args, raw := Text.trim line } := by
    rw [words] at hwords
    rw [Invocation.ofChars?]
    cases hcases : wordsOf line.toList with
    | nil =>
        rw [hcases] at hwords
        cases hwords
    | cons word rest =>
        rw [hcases, List.map_cons] at hwords
        obtain ⟨rfl, rfl⟩ := List.cons.inj hwords
        rfl
  rw [parse, lineOf, hchain]
  show (pipelineOf line.toList).map Line.pipeline = _
  rw [pipelineOf, hpipes]
  simp only [hcommand]
  rfl

variable {text word : List Char} {texts words : List (List Char)}

/-- The cells of texts with blanks between them. -/
theorem cells_of_spells (h : Spells text word) (hs : List.Forall₂ Spells texts words) :
    cells {} (text ++ texts.flatMap (' ' :: ·))
      = word.map some ++ words.flatMap fun w => none :: w.map some := by
  rw [cells_append, h.cells_eq, h.after_eq]
  refine congrArg (word.map some ++ ·) ?_
  induction hs with
  | nil => rfl
  | cons hfirst _ ih =>
      rw [List.flatMap_cons, List.flatMap_cons, List.cons_append, cells_free_blank rfl rfl,
        cells_append, hfirst.cells_eq, hfirst.after_eq, ih, List.cons_append]

theorem no_operator_of_spells (h : Spells text word) (hs : List.Forall₂ Spells texts words) :
    ∀ cell ∈ marked {} (text ++ texts.flatMap (' ' :: ·)), cell.2 = true →
      cell.1 ∉ ['|', ';', '&'] := by
  rw [marked_append, h.after_eq, List.forall_mem_append]
  refine ⟨h.no_operator, ?_⟩
  induction hs with
  | nil => simp [marked]
  | cons hfirst _ ih =>
      rw [List.flatMap_cons, List.cons_append, marked, List.forall_mem_cons]
      refine ⟨fun _ => by decide, ?_⟩
      have hblank : Mode.step {} ' ' = {} := rfl
      rw [hblank, marked_append, hfirst.after_eq, List.forall_mem_append]
      exact ⟨hfirst.no_operator, ih⟩

/-- **Texts with blanks between them are one command**, with the words that they spell. -/
theorem parse_of_spells (h : Spells text word) (hs : List.Forall₂ Spells texts words)
    (hne : ∀ w ∈ word :: words, w ≠ []) {line : String}
    (hline : line.toList = text ++ texts.flatMap (' ' :: ·)) :
    parse line = .ok (.pipeline (.single {
      name := String.ofList word
      words := words.map String.ofList
      raw := Text.trim line })) := by
  rw [List.forall_mem_cons] at hne
  have hfree := no_operator_of_spells h hs
  have hcells := cells_of_spells h hs
  rw [← hline] at hfree hcells
  refine parse_of_no_operator hfree ?_
  rw [CommandLine.words, wordsOf_eq, hcells, wordsIn_pieces, wordsIn_map_some hne.1,
    List.flatMap_congr fun w hw => wordsIn_map_some (hne.2 w hw)]
  show String.ofList word :: (words.flatMap fun w => [w]).map String.ofList = _
  rw [List.flatMap_singleton']

end PocketShell.CommandLine
