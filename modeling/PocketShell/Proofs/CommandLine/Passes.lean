import PocketShell.Proofs.CommandLine.Stages

set_option autoImplicit false

/-! # Words read in passes

The words of a text can be read in passes, each of which takes one character, or a backslash
together with the character after it (`WordReader.pass?`). Such a reader knows only which quotation
is open. The scan for operators takes the characters one by one and has to remember a backslash
(`Mode.escaped`).

Both keep the same account of the quotations. Between two passes the open quotation is the same and
the scan remembers no backslash; in the middle of a pass, after a backslash and before its
character, it remembers one (`inStep`). The scan follows one pass, and so all passes in a row
(`follows_pass`, `follows_passes`); texts are taken apart as the passes take them
(`escape_induction`). That the reader reads the words of a text is seen pass by pass too: a pass
does not change the words that have been read and those of what is left (`wordsWith_pass`).

What stands around a free blank, or in two stages of a pipeline, can therefore be read apart.
-/

namespace PocketShell.CommandLine

open PocketShell.Text (isBlank)

/-! ## The reader of words -/

/-- The state of the reader between two passes: the words read so far, what has been read of the
present one, and the mark of the open quotation, if one is open. -/
structure WordReader where
  words : List (List Char) := []
  current : List Char := []
  quote : Option Char := none

namespace WordReader

/-- The reader after more characters of the present word. -/
def keep (r : WordReader) (cs : List Char) : WordReader := { r with current := r.current ++ cs }

/-- The words if the present one ends here. There are no empty words. -/
def finished (r : WordReader) : List (List Char) :=
  if r.current = [] then r.words else r.words ++ [r.current]

/-- The reader after a character that no backslash stands before. -/
def take (r : WordReader) (c : Char) : WordReader :=
  if isQuote c then
    match r.quote with
    | none => { r with quote := some c }
    | some opened => if opened = c then { r with quote := none } else r.keep [c]
  else if isBlank c && r.quote.isNone then { r with words := r.finished, current := [] }
  else r.keep [c]

/-- **One pass**: the reader after it, and what it leaves of the text. A backslash is taken together
with the character after it. -/
def pass? (r : WordReader) : List Char → Option (WordReader × List Char)
  | [] => none
  | ['\\'] => some (r.keep ['\\'], [])
  | '\\' :: c :: rest => some (r.keep (unescape c), rest)
  | c :: rest => some (r.take c, rest)

variable {r next : WordReader} {c : Char} {text rest : List Char}

theorem pass?_of_ne (hc : c ≠ '\\') (rest : List Char) :
    r.pass? (c :: rest) = some (r.take c, rest) := by
  simp [pass?, hc]

theorem length_of_pass? (h : r.pass? text = some (next, rest)) : rest.length < text.length := by
  unfold pass? at h
  split at h <;> cases h <;> simp

/-- The reader after passes up to the end of the text. -/
def read (r : WordReader) (text : List Char) : WordReader :=
  match _h : r.pass? text with
  | none => r
  | some (next, rest) => next.read rest
termination_by text.length
decreasing_by exact length_of_pass? ‹_›

/-- **Passes from one point of a text to another**: where they start, with what is left of the text
there, and where they lead. -/
inductive Passes : WordReader → List Char → WordReader → List Char → Prop
  | refl {r : WordReader} {text : List Char} : Passes r text r text
  | step {r next final : WordReader} {text rest left : List Char}
      (h : r.pass? text = some (next, rest)) (more : Passes next rest final left) :
      Passes r text final left

/-- What one pass can be. -/
theorem pass?_cases (h : r.pass? text = some (next, rest)) :
    text = ['\\'] ∧ next = r.keep ['\\'] ∧ rest = [] ∨
      (∃ c, text = '\\' :: c :: rest ∧ next = r.keep (unescape c)) ∨
      ∃ c, c ≠ '\\' ∧ text = c :: rest ∧ next = r.take c := by
  unfold pass? at h
  split at h
  · cases h
  · cases h
    exact .inl ⟨rfl, rfl, rfl⟩
  · cases h
    exact .inr (.inl ⟨_, rfl, rfl⟩)
  · next c rest hlone hescape =>
      cases h
      refine .inr (.inr ⟨c, ?_, rfl, rfl⟩)
      rintro rfl
      cases rest with
      | nil => exact hlone rfl rfl
      | cons d rest => exact hescape d rest rfl rfl

theorem eq_nil_of_pass? (h : r.pass? text = none) : text = [] := by
  unfold pass? at h
  split at h <;> first | rfl | cases h

/-- **Taking a text apart as the passes take it.** -/
theorem escape_induction {motive : List Char → Prop} (nil : motive []) (lone : motive ['\\'])
    (escape : ∀ c cs, motive cs → motive ('\\' :: c :: cs))
    (other : ∀ c cs, c ≠ '\\' → motive cs → motive (c :: cs)) (cs : List Char) : motive cs := by
  induction hn : cs.length using Nat.strong_induction_on generalizing cs with
  | _ n ih =>
      subst hn
      rcases cs with - | ⟨c, cs⟩
      · exact nil
      · by_cases hc : c = '\\'
        · subst hc
          cases cs with
          | nil => exact lone
          | cons d cs => exact escape d cs (ih cs.length (by simp) cs rfl)
        · exact other c cs hc (ih cs.length (by simp) cs rfl)

/-! ## The words that it reads -/

/-- The state of the scan for operators between two passes. -/
def mode (r : WordReader) : Mode := { quote := r.quote }

/-- The words that the reader has read and those of what is left, which the present word may go on
into. -/
def wordsWith (r : WordReader) (text : List Char) : List (List Char) :=
  r.words ++ wordsIn (r.current.map some ++ cells r.mode text)

theorem finished_eq (r : WordReader) : r.finished = r.words ++ wordsIn (r.current.map some) := by
  rw [finished]
  split_ifs with hempty
  · rw [hempty, List.map_nil, wordsIn_nil, List.append_nil]
  · rw [wordsIn_map_some hempty]

/-- More of the present word is as good as its cells ahead. -/
theorem wordsWith_keep (r : WordReader) (cs text : List Char) :
    (r.keep cs).wordsWith text
      = r.words ++ wordsIn (r.current.map some ++ (cs.map some ++ cells r.mode text)) := by
  rw [wordsWith, keep, List.map_append, List.append_assoc]
  rfl

/-- The cells of an escape are those of what it stands for. -/
theorem cells_escape (quote : Option Char) (c : Char) (text : List Char) :
    cells { quote } ('\\' :: c :: text) = (unescape c).map some ++ cells { quote } text := by
  simp [cells, Mode.isFree, Mode.adds, Mode.step]

/-- A quote mark opens or closes a quotation, or stands for itself in the quotation of another. -/
theorem wordsWith_take_quote (r : WordReader) (hc : c ≠ '\\') (hq : isQuote c = true)
    (text : List Char) : (r.take c).wordsWith text = r.wordsWith (c :: text) := by
  have hcells : ∀ quote : Option Char, cells { quote } (c :: text)
      = (if quote.all (· == c) then [] else [some c])
        ++ cells { quote := Mode.toggle quote c } text := by
    intro quote
    rw [cells]
    simp [Mode.isFree, Mode.adds, Mode.step, hc, hq, apply_ite]
  rw [take, if_pos hq, wordsWith, wordsWith, mode, mode, hcells]
  cases hquote : r.quote with
  | none => rfl
  | some opened =>
      by_cases hsame : opened = c
      · simp [hsame, Mode.toggle]
      · simp [hsame, Mode.toggle, keep, hquote]

/-- Free white space ends a word, and any other character belongs to the present one. -/
theorem wordsWith_take_other (r : WordReader) (hc : c ≠ '\\') (hq : isQuote c = false)
    (text : List Char) : (r.take c).wordsWith text = r.wordsWith (c :: text) := by
  have hcells : cells r.mode (c :: text)
      = (if isBlank c && r.quote.isNone then none else some c) :: cells r.mode text := by
    rw [cells]
    cases hquote : r.quote <;> cases isBlank c <;>
      simp [mode, Mode.isFree, Mode.adds, Mode.step, hc, hq, hquote]
  have hwords : r.wordsWith (c :: text) = r.words ++ wordsIn (r.current.map some
      ++ (if isBlank c && r.quote.isNone then none else some c) :: cells r.mode text) := by
    rw [wordsWith, hcells]
  rw [hwords, take, if_neg (by simp [hq])]
  split_ifs with hgap
  · rw [wordsIn_gap, ← List.append_assoc, ← finished_eq]
    rfl
  · rw [wordsWith_keep]
    rfl

/-- **A pass does not change the words.** -/
theorem wordsWith_pass (h : r.pass? text = some (next, rest)) :
    next.wordsWith rest = r.wordsWith text := by
  rcases pass?_cases h with ⟨rfl, rfl, rfl⟩ | ⟨c, rfl, rfl⟩ | ⟨c, hc, rfl, rfl⟩
  · rw [wordsWith_keep, wordsWith]
    simp [cells, mode, Mode.isFree, Mode.adds, Mode.step]
  · rw [wordsWith_keep, wordsWith, mode, cells_escape]
  · cases hq : isQuote c with
    | true => exact wordsWith_take_quote r hc hq rest
    | false => exact wordsWith_take_other r hc hq rest

/-- **The reader reads the words of a text.** -/
theorem finished_read (r : WordReader) (text : List Char) :
    (r.read text).finished = r.wordsWith text := by
  fun_induction read r text with
  | case1 r text hnone =>
      obtain rfl := eq_nil_of_pass? hnone
      rw [finished_eq, wordsWith, mode, cells, if_neg Bool.false_ne_true, List.append_nil]
  | case2 r text next rest hpass ih => rw [ih, wordsWith_pass hpass]

/-! ## The reader and the scan for operators -/

/-- After a character that is no backslash the reader and the scan have the same quotation open. -/
theorem step_mode (r : WordReader) (hc : c ≠ '\\') : r.mode.step c = (r.take c).mode := by
  rw [mode, Mode.step, if_neg Bool.false_ne_true, if_neg hc, take]
  split_ifs with hq hgap
  · cases hquote : r.quote with
    | none => rfl
    | some opened =>
        by_cases hsame : opened = c
        · simp [Mode.toggle, hsame, mode]
        · simp [Mode.toggle, hsame, mode, keep, hquote]
  · rfl
  · rfl

theorem step_backslash (r : WordReader) :
    r.mode.step '\\' = { quote := r.quote, escaped := true } := by
  simp [mode, Mode.step]

/-- An escape leaves the scan as it was. -/
theorem after_escape (r : WordReader) (c : Char) (cs : List Char) :
    r.mode.after ('\\' :: c :: cs) = r.mode.after cs := by
  rw [Mode.after_cons, Mode.after_cons, step_backslash]
  rfl

/-- **The scan follows the reader** from one point of a text to another: over what is taken it comes
to the same quotation, and it remembers no backslash unless the text has ended with one. -/
def Follows (r : WordReader) (text : List Char) (final : WordReader) (left : List Char) : Prop :=
  ∃ taken, text = taken ++ left ∧ (r.mode.after taken).quote = final.quote ∧
    (left ≠ [] → r.mode.after taken = final.mode)

theorem Follows.of_mode {taken : List Char} (h : r.mode.after taken = next.mode)
    (left : List Char) : Follows r (taken ++ left) next left :=
  ⟨taken, rfl, congrArg Mode.quote h, fun _ => h⟩

theorem Follows.trans {final : WordReader} {left : List Char} (h : Follows r text next rest)
    (h' : Follows next rest final left) : Follows r text final left := by
  obtain ⟨first, rfl, hquote, hmode⟩ := h
  obtain ⟨later, rfl, hquote', hmode'⟩ := h'
  refine ⟨first ++ later, (List.append_assoc ..).symm, ?_, fun hne => ?_⟩
  · rw [Mode.after_append]
    by_cases hend : later ++ left = []
    · -- the text has ended, so nothing more was taken
      obtain ⟨rfl, rfl⟩ := List.append_eq_nil_iff.mp hend
      exact hquote.trans hquote'
    · rw [hmode hend]
      exact hquote'
  · rw [Mode.after_append, hmode (List.append_ne_nil_of_right_ne_nil _ hne), hmode' hne]

/-- **The scan follows a pass.** -/
theorem follows_pass (h : r.pass? text = some (next, rest)) : Follows r text next rest := by
  rcases pass?_cases h with ⟨rfl, rfl, rfl⟩ | ⟨c, rfl, rfl⟩ | ⟨c, hc, rfl, rfl⟩
  · -- the scan remembers the backslash at the end of the text
    refine ⟨['\\'], rfl, ?_, fun hne => absurd rfl hne⟩
    rw [Mode.after_cons, step_backslash]
    rfl
  · have hmode : r.mode.after ['\\', c] = (r.keep (unescape c)).mode := after_escape r c []
    exact .of_mode hmode rest
  · have hmode : r.mode.after [c] = (r.take c).mode := step_mode r hc
    exact .of_mode hmode rest

/-- **The scan follows passes in a row.** -/
theorem follows_passes {final : WordReader} {left : List Char} (h : Passes r text final left) :
    Follows r text final left := by
  induction h with
  | refl => exact ⟨[], rfl, rfl, fun _ => rfl⟩
  | step hpass more ih => exact (follows_pass hpass).trans ih

/-- **The reader stands wherever the scan remembers no backslash**, between two passes. Where the
scan remembers one, the next pass of the reader has taken the backslash and not yet its character.
-/
theorem exists_passes (before rest : List Char) (r : WordReader) :
    ((r.mode.after before).escaped = false → ∃ final, Passes r (before ++ rest) final rest) ∧
      ((r.mode.after before).escaped = true → ∃ earlier final, before = earlier ++ ['\\'] ∧
        Passes r (before ++ rest) final ('\\' :: rest)) := by
  induction before using escape_induction generalizing r with
  | nil => exact ⟨fun _ => ⟨r, .refl⟩, fun h => absurd h Bool.false_ne_true⟩
  | lone =>
      rw [Mode.after_cons, step_backslash]
      exact ⟨fun h => absurd h nofun, fun _ => ⟨[], r, rfl, .refl⟩⟩
  | escape c cs ih =>
      obtain ⟨hbetween, hwithin⟩ := ih (r.keep (unescape c))
      rw [after_escape]
      refine ⟨fun h => ?_, fun h => ?_⟩
      · obtain ⟨final, hpasses⟩ := hbetween h
        exact ⟨final, .step rfl hpasses⟩
      · obtain ⟨earlier, final, rfl, hpasses⟩ := hwithin h
        exact ⟨'\\' :: c :: earlier, final, rfl, .step rfl hpasses⟩
  | other c cs hc ih =>
      obtain ⟨hbetween, hwithin⟩ := ih (r.take c)
      rw [Mode.after_cons, step_mode r hc]
      refine ⟨fun h => ?_, fun h => ?_⟩
      · obtain ⟨final, hpasses⟩ := hbetween h
        exact ⟨final, .step (pass?_of_ne hc _) hpasses⟩
      · obtain ⟨earlier, final, rfl, hpasses⟩ := hwithin h
        exact ⟨c :: earlier, final, rfl, .step (pass?_of_ne hc _) hpasses⟩

/-- **The reader and the scan go in step** over a text: at each place the quotation is the same, and
the scan remembers a backslash exactly where the reader is in the middle of a pass, between a
backslash and the character that it takes. -/
def InStep (text : List Char) : Prop :=
  ∀ before rest, text = before ++ rest →
    let scan := Mode.after {} before
    (∀ r, Passes {} text r rest → r.quote = scan.quote) ∧
      (∀ r earlier, before = earlier ++ ['\\'] → Passes {} text r ('\\' :: rest) →
        r.quote = scan.quote) ∧
      (scan.escaped = false → ∃ r, Passes {} text r rest) ∧
      (scan.escaped = true ↔
        ∃ earlier r, before = earlier ++ ['\\'] ∧ Passes {} text r ('\\' :: rest))

theorem inStep (text : List Char) : InStep text := by
  rintro before rest rfl scan
  have hat : ∀ {r : WordReader} {earlier left : List Char}, before ++ rest = earlier ++ left →
      Passes {} (before ++ rest) r left → (Mode.after {} earlier).quote = r.quote ∧
        (left ≠ [] → Mode.after {} earlier = r.mode) := by
    intro r earlier left htext hpasses
    obtain ⟨taken, htaken, hquote, hmode⟩ := follows_passes hpasses
    obtain rfl := List.append_cancel_right (htext.symm.trans htaken)
    exact ⟨hquote, hmode⟩
  -- between a backslash and its character the scan is one step further
  have hwithin : ∀ {r : WordReader} {earlier : List Char}, before = earlier ++ ['\\'] →
      Passes {} (before ++ rest) r ('\\' :: rest) →
        scan = { quote := r.quote, escaped := true } := by
    rintro r earlier hbefore hpasses
    have htext : before ++ rest = earlier ++ '\\' :: rest := by
      rw [hbefore, List.append_assoc, List.singleton_append]
    have hmode := (hat htext hpasses).2 (List.cons_ne_nil _ _)
    show Mode.after {} before = _
    rw [hbefore, Mode.after_append, hmode, Mode.after_cons, step_backslash]
    rfl
  obtain ⟨hplain, hescaped⟩ := exists_passes before rest {}
  refine ⟨fun r hpasses => (hat rfl hpasses).1.symm, fun r earlier hbefore hpasses => ?_, hplain,
    hescaped, ?_⟩
  · rw [hwithin hbefore hpasses]
  · rintro ⟨earlier, r, hbefore, hpasses⟩
    rw [hwithin hbefore hpasses]

end WordReader

/-! ## Words of texts that are read apart -/

/-- **A blank where nothing is open separates the words** before it from those after it. -/
theorem wordsOf_append_blank {cs : List Char} (h : Mode.after {} cs = {}) (ds : List Char) :
    wordsOf (cs ++ ' ' :: ds) = wordsOf cs ++ wordsOf ds := by
  have hend : cells {} cs = cellsBefore {} cs := by
    rw [cells_eq, h]
    exact List.append_nil _
  calc wordsOf (cs ++ ' ' :: ds)
      = wordsIn (cellsBefore {} cs ++ cells {} (' ' :: ds)) := by rw [wordsOf_eq, cells_append, h]
    _ = wordsIn (cellsBefore {} cs ++ none :: cells {} ds) := by rw [cells_free_blank rfl rfl]
    _ = wordsOf cs ++ wordsOf ds := by rw [wordsIn_gap, ← hend, ← wordsOf_eq, ← wordsOf_eq]

theorem words_append_blank {a : String} (h : Mode.after {} a.toList = {}) (b : String) :
    words (a ++ " " ++ b) = words a ++ words b := by
  have htext : (a ++ " " ++ b).toList = a.toList ++ ' ' :: b.toList := by
    rw [String.toList_append, String.toList_append, List.append_assoc]
    rfl
  rw [words, htext, wordsOf_append_blank h, List.map_append, words, words]

/-- **The words of the stages are those of the text** with a blank for each pipe between them. -/
theorem flatMap_wordsOf_stageTexts (cs : List Char) :
    (stageTexts {} cs).flatMap wordsOf = wordsOf (blankPipes {} cs) := by
  rw [wordsOf_eq, cells_blankPipes {} 0 cs, wordsIn_pieces, stageTexts, List.flatMap_cons,
    List.flatMap_map]
  rfl

/-- With blanks between them the stages make up the text without its pipes. -/
theorem intercalate_blank_stageTexts (m : Mode) (cs : List Char) :
    [' '].intercalate (stageTexts m cs) = blankPipes m cs := by
  induction cs generalizing m with
  | nil => rfl
  | cons c cs ih =>
      have hne : ∀ m : Mode, stageTexts m cs ≠ [] := fun m => (stages_stageTexts m cs).1.ne_nil
      rw [stageTexts_cons, blankPipes_cons]
      split_ifs with hpipe
      · rw [Mode.step_of_isFree (Bool.and_eq_true_iff.mp hpipe).1, intercalate_cons _ (hne {}), ih,
          List.nil_append]
      · rw [intercalate_modifyHead c (hne (m.step c)), ih]

/-- **Operators and words are read in step.** Over every text the reader of words and the scan for
operators have the same quotation open, and the scan remembers a backslash exactly between a
backslash and the character that the reader takes with it. The reader reads the words of the text.
So two texts with a blank between them have the words of both, if nothing is open where the first
one ends, and the stages into which a text is divided at its free pipes have the words of the text
with a blank in the place of each of these pipes. -/
theorem readers_in_step :
    (∀ text, WordReader.InStep text) ∧
    (∀ text, (WordReader.read {} text).finished = wordsOf text) ∧
    (∀ a b : String, Mode.after {} a.toList = {} → words (a ++ " " ++ b) = words a ++ words b) ∧
    ∀ text, ['|'].intercalate (stageTexts {} text) = text ∧
      [' '].intercalate (stageTexts {} text) = blankPipes {} text ∧
      (stageTexts {} text).flatMap wordsOf = wordsOf (blankPipes {} text) :=
  ⟨WordReader.inStep, WordReader.finished_read {}, fun _ b h => words_append_blank h b,
    fun text => ⟨(stages_stageTexts {} text).2, intercalate_blank_stageTexts {} text,
      flatMap_wordsOf_stageTexts text⟩⟩

/-- A text with pipes and the other mark in its quotations and with an escaped pipe at its end, and
one whose last quotation stays open. -/
theorem readers_in_step_quoted :
    let a := "x'\"|' \"it's \\\" \"\\|"
    let b := "y\\ 'z | "
    Mode.after {} a.toList = {} ∧ words (a ++ " " ++ b) = words a ++ words b ∧
      words a = ["x\"|", "it's \" \\|"] ∧ words b = ["y\\ z | "] := by
  intro a b
  have hclosed : Mode.after {} a.toList = {} := by decide
  refine ⟨hclosed, readers_in_step.2.2.1 a b hclosed, ?_, ?_⟩
  · decide
  · decide

end PocketShell.CommandLine
