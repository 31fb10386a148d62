import PocketShell.Proofs.CommandLine.Splitting

set_option autoImplicit false

/-! # Quoted words

Any word can be written so that the reader of command lines gives it back: in quotation marks,
with a backslash before each backslash and each quotation mark of its own. Words written like
this with blanks between them are one command, whatever characters they hold (`parse_quoteAll`).

The proof reads one written character at a time. Inside the quotation each of them leaves the
reader where it was, adds just the character that was written, and is not free
(`Mode.after_escape`, `cellsBefore_escape`, `marked_escape`). So the only free characters of
the line are the blanks between the words, which separate words and are no operators.
-/

namespace PocketShell.CommandLine

open PocketShell.Text (isBlank trimChars)

/-! ## Writing words -/

/-- A character as it is written in a quotation. -/
def escape (c : Char) : List Char :=
  if c = '\\' ∨ c = '\x22' then ['\\', c] else [c]

/-- The characters of a word as it is written in a quotation, with the marks. -/
def quoteChars (word : List Char) : List Char :=
  '\x22' :: (word.flatMap escape ++ ['\x22'])

/-- The written word as a text. -/
def quote (word : String) : String := String.ofList (quoteChars word.toList)

/-- The words of a command, each in a quotation and with a blank between two of them. -/
def quoteAll (words : List String) : String := Text.join " " (words.map quote)

/-! ## Reading a quotation -/

/-- The state of the reader inside a quotation with the given mark. -/
def quoted (mark : Char) : Mode := { quote := some mark }

/-- A character in its role that is neither a backslash nor the mark of the quotation stays
in the quotation. -/
theorem step_quoted {mark c : Char} (hb : c ≠ '\\') (hq : c ≠ mark) :
    (quoted mark).step c = quoted mark := by
  have hopen : mark ≠ c := Ne.symm hq
  simp only [Mode.step, quoted, hb, Bool.false_eq_true, if_false]
  split
  · -- the other mark does not close the quotation
    simp [Mode.toggle, hopen]
  · rfl

theorem adds_quoted {mark c : Char} (hb : c ≠ '\\') (hq : c ≠ mark) :
    (quoted mark).adds c = [c] := by
  have hopen : mark ≠ c := Ne.symm hq
  simp [Mode.adds, quoted, hb, hopen]

theorem isFree_quoted (mark c : Char) : (quoted mark).isFree c = false := by
  simp [Mode.isFree, quoted]

/-- **A written character leaves the reader in the quotation.** -/
theorem Mode.after_escape (c : Char) : (quoted '\x22').after (escape c) = quoted '\x22' := by
  rw [escape]
  split_ifs with h
  · rcases h with rfl | rfl <;> rfl
  · rw [not_or] at h
    rw [Mode.after_cons, step_quoted h.1 h.2]
    rfl

/-- **A written character adds the character itself.** -/
theorem cellsBefore_escape (c : Char) : cellsBefore (quoted '\x22') (escape c) = [some c] := by
  rw [escape]
  split_ifs with h
  · rcases h with rfl | rfl <;> rfl
  · rw [not_or] at h
    rw [cellsBefore, isFree_quoted, adds_quoted h.1 h.2]
    rfl

/-- **No written character is free.** -/
theorem marked_escape (c : Char) : ∀ cell ∈ marked (quoted '\x22') (escape c), cell.2 = false := by
  rw [escape]
  split_ifs with h
  · rcases h with rfl | rfl <;> decide
  · rw [marked, isFree_quoted]
    simp [marked]

/-- The cells before the end of two pieces of a text. -/
theorem cellsBefore_append (m : Mode) (xs ys : List Char) :
    cellsBefore m (xs ++ ys) = cellsBefore m xs ++ cellsBefore (m.after xs) ys := by
  induction xs generalizing m with
  | nil => rfl
  | cons x xs ih =>
      rw [List.cons_append, cellsBefore, cellsBefore, ih, List.append_assoc, Mode.after_cons]

theorem after_flatMap_escape (word : List Char) :
    (quoted '\x22').after (word.flatMap escape) = quoted '\x22' := by
  induction word with
  | nil => rfl
  | cons c word ih => rw [List.flatMap_cons, Mode.after_append, Mode.after_escape, ih]

theorem cellsBefore_flatMap_escape (word : List Char) :
    cellsBefore (quoted '\x22') (word.flatMap escape) = word.map some := by
  induction word with
  | nil => rfl
  | cons c word ih =>
      rw [List.flatMap_cons, cellsBefore_append, cellsBefore_escape, Mode.after_escape, ih]
      rfl

theorem marked_flatMap_escape (word : List Char) :
    ∀ cell ∈ marked (quoted '\x22') (word.flatMap escape), cell.2 = false := by
  induction word with
  | nil => simp [marked]
  | cons c word ih =>
      intro cell hcell
      rw [List.flatMap_cons, marked_append, Mode.after_escape, List.mem_append] at hcell
      rcases hcell with hcell | hcell
      · exact marked_escape c cell hcell
      · exact ih cell hcell

/-! ## Reading a quoted word -/

theorem after_quoteChars (word : List Char) : Mode.after {} (quoteChars word) = {} := by
  rw [quoteChars, Mode.after_cons]
  show (quoted '\x22').after _ = _
  rw [Mode.after_append, after_flatMap_escape]
  rfl

theorem cellsBefore_quoteChars (word : List Char) :
    cellsBefore {} (quoteChars word) = word.map some := by
  show [] ++ cellsBefore (quoted '\x22') (word.flatMap escape ++ ['\x22']) = _
  rw [List.nil_append, cellsBefore_append, cellsBefore_flatMap_escape, after_flatMap_escape]
  exact List.append_nil _

theorem marked_quoteChars (word : List Char) :
    ∀ cell ∈ marked {} (quoteChars word), cell.2 = false := by
  intro cell hcell
  have hopened : marked {} (quoteChars word)
      = ('\x22', false) :: (marked (quoted '\x22') (word.flatMap escape) ++ [('\x22', false)]) := by
    show ('\x22', false) :: marked (quoted '\x22') _ = _
    rw [marked_append, after_flatMap_escape]
    rfl
  rw [hopened, List.mem_cons, List.mem_append, List.mem_singleton] at hcell
  rcases hcell with rfl | hcell | rfl
  · rfl
  · exact marked_flatMap_escape word cell hcell
  · rfl

/-- A text without gaps is one word. -/
theorem wordsIn_map_some {word : List Char} (h : word ≠ []) : wordsIn (word.map some) = [word] := by
  have hruns : ∀ cs : List Char, runs (cs.map some) = [cs] := by
    intro cs
    induction cs with
    | nil => rfl
    | cons c cs ih => rw [List.map_cons, runs, ih]
  rw [wordsIn, hruns, List.filter_cons, if_pos (by simpa using h), List.filter_nil]

/-! ## Reading the line -/

theorem toList_quoteAll (word : String) (words : List String) :
    (quoteAll (word :: words)).toList
      = quoteChars word.toList ++ words.flatMap fun w => ' ' :: quoteChars w.toList := by
  induction words generalizing word with
  | nil => simp [quoteAll, Text.join, quote]
  | cons next words ih =>
      have hjoin : quoteAll (word :: next :: words)
          = quote word ++ " " ++ quoteAll (next :: words) := rfl
      rw [hjoin, String.toList_append, ih, List.flatMap_cons]
      simp [quote]

/-- **The cells of the line** are those of the words, with a gap between two of them. -/
theorem cells_line (first : List Char) (words : List String) :
    cells {} (quoteChars first ++ words.flatMap fun w => ' ' :: quoteChars w.toList)
      = first.map some ++ words.flatMap fun w => none :: w.toList.map some := by
  rw [cells_append, cellsBefore_quoteChars, after_quoteChars]
  refine congrArg (first.map some ++ ·) ?_
  induction words with
  | nil => rfl
  | cons word words ih =>
      rw [List.flatMap_cons, List.flatMap_cons, List.cons_append, cells_free_blank rfl rfl,
        cells_append, cellsBefore_quoteChars, after_quoteChars, ih, List.cons_append]

/-- **The free characters of the line** are the blanks between the words. -/
theorem eq_blank_of_free (first : List Char) (words : List String) :
    ∀ cell ∈ marked {} (quoteChars first ++ words.flatMap fun w => ' ' :: quoteChars w.toList),
      cell.2 = true → cell.1 = ' ' := by
  have hquoted : ∀ (word : List Char) (cell : Char × Bool), cell ∈ marked {} (quoteChars word) →
      cell.2 = true → cell.1 = ' ' := by
    intro word cell hcell hfree
    rw [marked_quoteChars word cell hcell] at hfree
    cases hfree
  intro cell hcell
  rw [marked_append, after_quoteChars, List.mem_append] at hcell
  rcases hcell with hcell | hcell
  · exact hquoted first cell hcell
  · induction words with
    | nil => cases hcell
    | cons word words ih =>
        rw [List.flatMap_cons, List.cons_append] at hcell
        have hcell : cell ∈ (' ', true) :: marked {} (quoteChars word.toList ++ _) := hcell
        rw [marked_append, after_quoteChars, List.mem_cons, List.mem_append] at hcell
        rcases hcell with rfl | hcell | hcell
        · exact fun _ => rfl
        · exact hquoted word.toList cell hcell
        · exact ih hcell

/-- A text without a free pipe is one stage. -/
theorem splitPipes_of_no_pipe (position : Nat) {cells : List (Char × Bool)}
    (h : ∀ cell ∈ cells, cell.2 = true → cell.1 ≠ '|') :
    splitPipes position cells = (cells.map Prod.fst, []) := by
  induction cells generalizing position with
  | nil => rfl
  | cons cell cells ih =>
      obtain ⟨c, free⟩ := cell
      rw [List.forall_mem_cons] at h
      have hpipe : (free && c == '|') = false := by
        cases free with
        | false => rfl
        | true => simpa using h.1 rfl
      rw [splitPipes_cons, if_neg (by simp [hpipe]), ih _ h.2]
      rfl

/-- A text without a free separator is one part. -/
theorem splitChain_of_no_separator {cells : List (Char × Bool)}
    (h : ∀ cell ∈ cells, cell.2 = true → cell.1 ≠ ';' ∧ cell.1 ≠ '&') :
    splitChain cells = (cells.map Prod.fst, []) := by
  induction cells with
  | nil => rfl
  | cons cell cells ih =>
      rw [List.forall_mem_cons] at h
      have hstart : startsSeparator (cell :: cells) = false := by
        by_contra hsep
        rw [Bool.not_eq_false] at hsep
        unfold startsSeparator at hsep
        split at hsep
        · next heq =>
            obtain ⟨rfl, -⟩ := List.cons.inj heq
            exact (h.1 rfl).1 rfl
        · next heq =>
            obtain ⟨rfl, -⟩ := List.cons.inj heq
            exact (h.1 rfl).2 rfl
        · cases hsep
      rw [splitChain_of_not hstart, ih h.2]
      rfl

/-- A text between two characters that are no white space is not trimmed. -/
theorem trimChars_of_ends {c d : Char} (hc : isBlank c = false) (hd : isBlank d = false)
    (cs : List Char) : trimChars (c :: (cs ++ [d])) = c :: (cs ++ [d]) := by
  rw [Text.trimChars_eq_self_iff, ← List.cons_append, List.getLast?_concat]
  constructor
  · rintro _ ⟨⟩
    exact hc
  · rintro _ ⟨⟩
    exact hd

/-- The line stands between two quotation marks. -/
theorem exists_line_eq (first : List Char) (words : List String) :
    ∃ cs, (quoteChars first ++ words.flatMap fun w => ' ' :: quoteChars w.toList)
      = '\x22' :: (cs ++ ['\x22']) := by
  rcases List.eq_nil_or_concat words with rfl | ⟨before, last, rfl⟩
  · exact ⟨first.flatMap escape, by simp [quoteChars]⟩
  · refine ⟨first.flatMap escape ++ ['\x22']
      ++ (before.flatMap (fun w => ' ' :: quoteChars w.toList)
        ++ ' ' :: '\x22' :: last.toList.flatMap escape), ?_⟩
    simp [quoteChars]

/-! ## The result -/

/-- **Quoted words are read back.** Words of any characters, each written in a quotation, are
the words of the line, and the line is the one command with these words. -/
theorem parse_quoteAll {name : String} {args : List String}
    (h : ∀ word ∈ name :: args, word ≠ "") :
    words (quoteAll (name :: args)) = name :: args ∧
      parse (quoteAll (name :: args))
        = .ok (.pipeline (.single { name, words := args, raw := quoteAll (name :: args) })) := by
  have hne : ∀ word ∈ name :: args, word.toList ≠ [] := fun word hword hnil =>
    h word hword (String.toList_eq_nil_iff.mp hnil)
  rw [List.forall_mem_cons] at hne
  have hline := toList_quoteAll name args
  have hfree := eq_blank_of_free name.toList args
  have hends := exists_line_eq name.toList args
  have hcells := cells_line name.toList args
  rw [← hline] at hfree hends hcells
  generalize quoteAll (name :: args) = line at hfree hends hcells ⊢
  -- the words of the line are the words that were written
  have hwords : wordsOf line.toList = name.toList :: args.map String.toList := by
    rw [wordsOf_eq, hcells, wordsIn_pieces, wordsIn_map_some hne.1]
    refine congrArg (name.toList :: ·) ?_
    rw [List.flatMap_congr fun word hword => wordsIn_map_some (hne.2 word hword)]
    exact List.flatMap_pure_eq_map _ _
  have hmap : (args.map String.toList).map String.ofList = args := by
    simp [Function.comp_def]
  refine ⟨?_, ?_⟩
  · rw [words, hwords, List.map_cons, hmap, String.ofList_toList]
  · -- without free operators the line is a single command
    have hchain : splitChain (marked {} line.toList) = (line.toList, []) := by
      rw [splitChain_of_no_separator, map_fst_marked]
      intro cell hcell hf
      rw [hfree cell hcell hf]
      decide
    have hpipes : splitPipes 0 (marked {} line.toList) = (line.toList, []) := by
      rw [splitPipes_of_no_pipe, map_fst_marked]
      intro cell hcell hf
      rw [hfree cell hcell hf]
      decide
    have htrim : trimChars line.toList = line.toList := by
      obtain ⟨cs, hcs⟩ := hends
      rw [hcs]
      exact trimChars_of_ends rfl rfl cs
    have hcommand : Invocation.ofChars? line.toList = some { name, words := args, raw := line } := by
      rw [Invocation.ofChars?, hwords, htrim]
      simp only [hmap, String.ofList_toList]
    rw [parse, lineOf, hchain]
    show (pipelineOf line.toList).map Line.pipeline = _
    rw [pipelineOf, hpipes]
    simp only [hcommand]
    rfl

/-- Words with operators, quotation marks of both kinds, a backslash before an `n`, a line feed
and white space. -/
theorem parse_quoteAll_operators :
    let args := ["a;b && c", "\\n", "say \"it's\"", "x\ny |", " "]
    (∀ word ∈ "echo" :: args, word ≠ "") ∧
      words (quoteAll ("echo" :: args)) = "echo" :: args ∧
      parse (quoteAll ("echo" :: args))
        = .ok (.pipeline (.single
            { name := "echo", words := args, raw := quoteAll ("echo" :: args) })) := by
  intro args
  have h : ∀ word ∈ "echo" :: args, word ≠ "" := by decide
  exact ⟨h, parse_quoteAll h⟩

end PocketShell.CommandLine
