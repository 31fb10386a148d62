import PocketShell.Proofs.CommandLine.Parts
import PocketShell.Proofs.CommandLine.Stages

set_option autoImplicit false

/-! # Reading what is shown

A pipeline is shown as the trimmed texts of its stages with ` | ` between them, a chain as its
pipelines with a blank before and after each separator. Here the shown text is read again.

What is shown differs from what was read only in white space, but white space can be what a
backslash waits for, or the inside of a quotation that nothing closes. Two facts carry the proof.
A stage that ends where nothing is open ends so again when it is trimmed and one blank follows
(`after_blank`), and a word that it had is left (`wordsOf_trimChars_blank`). The last stage ends
without white space, so nothing is taken from its end at all.

To treat all stages alike, a blank is put in front of the shown text (`padded`). It changes neither
the stages nor the segments.
-/

namespace PocketShell

namespace Text

/-- The blank that is put between the parts of what is shown is white space. -/
theorem isBlank_of_mem_space : ∀ c ∈ [' '], isBlank c = true :=
  List.forall_mem_singleton.mpr rfl

/-- A text that does not end with white space has none to lose there. -/
theorem trailing_eq_nil {cs : List Char} (h : ∀ c ∈ cs.getLast?, isBlank c = false) :
    trailing cs = [] := by
  rcases List.eq_nil_or_concat (trailing cs) with hnil | ⟨rest, c, hconcat⟩
  · exact hnil
  · rw [List.concat_eq_append] at hconcat
    have hmem : c ∈ trailing cs := by simp [hconcat]
    have hblank : isBlank c = true := isBlank_of_mem_trailing hmem
    have hcs := eq_trimChars cs
    rw [hconcat, ← List.append_assoc] at hcs
    have hlast := h c (by rw [hcs]; simp)
    rw [hblank] at hlast
    cases hlast

theorem trimChars_blanks_append {xs : List Char} (h : ∀ c ∈ xs, isBlank c = true)
    (ys : List Char) : trimChars (xs ++ ys) = trimChars ys := by
  induction xs with
  | nil => rfl
  | cons x xs ih =>
      rw [List.forall_mem_cons] at h
      rw [List.cons_append, trimChars_cons h.1, ih h.2]

end Text

namespace CommandLine

open PocketShell.Text (isBlank trimChars trailing)

/-! ## The words of a trimmed stage -/

theorem wordsOf_ne_nil_of_ofChars? {text : List Char} {command : Invocation}
    (h : Invocation.ofChars? text = some command) : wordsOf text ≠ [] := by
  intro hnil
  rw [Invocation.ofChars?, hnil] at h
  cases h

theorem exists_ofChars?_of_ne_nil {text : List Char} (h : wordsOf text ≠ []) :
    ∃ command, Invocation.ofChars? text = some command := by
  unfold Invocation.ofChars?
  cases hwords : wordsOf text with
  | nil => exact absurd hwords h
  | cons name words => exact ⟨_, rfl⟩

theorem raw_of_ofChars? {text : List Char} {command : Invocation}
    (h : Invocation.ofChars? text = some command) :
    command.raw = String.ofList (trimChars text) := by
  unfold Invocation.ofChars? at h
  split at h
  · cases h
  · obtain rfl := Option.some.inj h
    rfl

theorem trimChars_ne_nil_of_ofChars? {text : List Char} {command : Invocation}
    (h : Invocation.ofChars? text = some command) : trimChars text ≠ [] := by
  intro hnil
  have hwords := wordsOf_ne_nil_of_ofChars? h
  -- what trimming takes from white space alone is white space
  have hblank : ∀ c ∈ text, isBlank c = true := by
    intro c hc
    rw [Text.eq_trimChars text, hnil, List.append_nil, List.mem_append] at hc
    rcases hc with hc | hc
    · exact Text.isBlank_of_mem_takeWhile hc
    · exact Text.isBlank_of_mem_trailing hc
  apply hwords
  rw [wordsOf_eq, cells_eq, cellsBefore_blanks hblank, Mode.after_blanks hblank]
  exact wordsIn_gaps_append _ []

theorem wordsOf_blanks_append {xs : List Char} (h : ∀ c ∈ xs, isBlank c = true)
    (ys : List Char) : wordsOf (xs ++ ys) = wordsOf ys := by
  rw [wordsOf_eq, cells_append, cellsBefore_blanks h, Mode.after_blanks h, wordsIn_gaps_append,
    wordsOf_eq]

/-- White space before a text does not change its command. -/
theorem ofChars?_blanks_append {xs : List Char} (h : ∀ c ∈ xs, isBlank c = true)
    (ys : List Char) : Invocation.ofChars? (xs ++ ys) = Invocation.ofChars? ys := by
  unfold Invocation.ofChars?
  rw [wordsOf_blanks_append h, Text.trimChars_blanks_append h]

theorem ofChars?_blank (cs : List Char) :
    Invocation.ofChars? (' ' :: cs) = Invocation.ofChars? cs :=
  ofChars?_blanks_append Text.isBlank_of_mem_space cs

theorem wordsIn_ne_nil {cells : List (Option Char)} {c : Char} (h : some c ∈ cells) :
    wordsIn cells ≠ [] := by
  intro hnil
  have hcount := letters_wordsIn cells
  rw [hnil] at hcount
  have hnone := List.countP_eq_zero.mp hcount.symm (some c) h
  exact hnone rfl

/-- A blank ends what is open outside quotations. -/
theorem step_blank {m : Mode} (h : m.quote = none) : m.step ' ' = {} := by
  rw [Mode.step_of_isBlank m rfl, h]

theorem quote_after_trimChars_of_closed {text : List Char} (hclosed : Mode.after {} text = {}) :
    (Mode.after {} (trimChars text)).quote = none := by
  rw [Mode.quote_after_trimChars, hclosed]

/-- **A stage that is trimmed and followed by a blank** ends where nothing is open. -/
theorem after_blank {text : List Char} (hclosed : Mode.after {} text = {}) :
    Mode.after {} (trimChars text ++ [' ']) = {} := by
  rw [Mode.after_append]
  exact step_blank (quote_after_trimChars_of_closed hclosed)

/-- **A stage keeps a word** when it is trimmed and followed by a blank. -/
theorem wordsOf_trimChars_blank {text : List Char} (hclosed : Mode.after {} text = {})
    (h : wordsOf text ≠ []) : wordsOf (trimChars text ++ [' ']) ≠ [] := by
  have hlead : ∀ c ∈ text.takeWhile isBlank, isBlank c = true := fun c =>
    Text.isBlank_of_mem_takeWhile
  have htrail : ∀ c ∈ trailing text, isBlank c = true := fun c => Text.isBlank_of_mem_trailing
  rw [Text.eq_trimChars text, List.append_assoc, wordsOf_blanks_append hlead, wordsOf_eq,
    cells_append] at h
  rw [wordsOf_eq, cells_append]
  have hquote := quote_after_trimChars_of_closed hclosed
  generalize Mode.after {} (trimChars text) = m at h hquote ⊢
  obtain ⟨quote, escaped⟩ := m
  obtain rfl : quote = none := hquote
  cases escaped with
  | false =>
      -- nothing is open, so only gaps have been cut off
      rw [cells_eq, Mode.after_blanks htrail, cellsBefore_blanks htrail] at h
      have hwords := wordsIn_append_gaps (cellsBefore {} (trimChars text)) (trailing text).length
      have hgap := wordsIn_append_gaps (cellsBefore {} (trimChars text)) 1
      rw [show cellsAtEnd {} = [] from rfl, List.append_nil, hwords] at h
      rw [show cells {} [' '] = List.replicate 1 none from rfl, hgap]
      exact h
  | true =>
      -- a backslash waits, and stays with the blank in a word
      exact wordsIn_ne_nil (c := ' ') (List.mem_append_right _ (by decide))

/-! ## Shown stages -/

/-- Texts with a blank before each and a blank after all but the last. -/
def padded : List (List Char) → List (List Char)
  | [] => []
  | [text] => [' ' :: text]
  | text :: rest => (' ' :: (text ++ [' '])) :: padded rest

theorem padded_cons (text : List Char) {rest : List (List Char)} (h : rest ≠ []) :
    padded (text :: rest) = (' ' :: (text ++ [' '])) :: padded rest := by
  cases rest with
  | nil => exact absurd rfl h
  | cons next rest => rfl

theorem padded_ne_nil {texts : List (List Char)} (h : texts ≠ []) : padded texts ≠ [] := by
  rcases texts with - | ⟨text, - | ⟨next, rest⟩⟩
  · exact absurd rfl h
  · exact List.cons_ne_nil _ _
  · exact List.cons_ne_nil _ _

/-- The padded texts with pipes between them are the shown ones, after a blank. -/
theorem intercalate_padded {texts : List (List Char)} (h : texts ≠ []) :
    ['|'].intercalate (padded texts) = ' ' :: [' ', '|', ' '].intercalate texts := by
  induction texts with
  | nil => exact absurd rfl h
  | cons text rest ih =>
      cases rest with
      | nil => simp [padded]
      | cons next rest =>
          have hne : next :: rest ≠ [] := List.cons_ne_nil _ _
          rw [padded_cons text hne, intercalate_cons _ (padded_ne_nil hne), ih hne,
            List.intercalate_cons_cons]
          simp

theorem isBlank_getLast?_of_cons {text : List Char} {rest : List (List Char)} (hne : rest ≠ [])
    (h : ∀ c ∈ (['|'].intercalate (text :: rest)).getLast?, isBlank c = false) :
    ∀ c ∈ (['|'].intercalate rest).getLast?, isBlank c = false := by
  intro c hc
  apply h c
  rw [intercalate_cons text hne]
  rw [Option.mem_def] at hc ⊢
  simp [List.getLast?_append, List.getLast?_cons, hc]

theorem noPipe_trimChars {text : List Char} (h : NoPipe {} text) : NoPipe {} (trimChars text) := by
  rw [Text.eq_trimChars text, noPipe_append, noPipe_append,
    Mode.after_blanks fun c => Text.isBlank_of_mem_takeWhile] at h
  exact h.1.2

/-- **Padded stages are stages.** -/
theorem stages_padded {texts : List (List Char)} (h : Stages {} texts) :
    Stages {} (padded (texts.map trimChars)) := by
  induction texts with
  | nil => exact absurd rfl h.ne_nil
  | cons text rest ih =>
      cases h with
      | last free => exact .last (noPipe_cons.mpr ⟨rfl, noPipe_trimChars free⟩)
      | more free closed hne others =>
          have hmap : rest.map trimChars ≠ [] := by simpa using hne
          have hfree : NoPipe {} (' ' :: (trimChars text ++ [' '])) := by
            refine noPipe_cons.mpr ⟨rfl, noPipe_append.mpr ⟨noPipe_trimChars free, ?_⟩⟩
            exact noPipe_blanks _ Text.isBlank_of_mem_space
          rw [List.map_cons, padded_cons _ hmap]
          exact .more hfree (after_blank closed) (padded_ne_nil hmap) (ih others)

/-- A stage without white space at its end is what trimming leaves, after white space. -/
theorem exists_eq_append_trimChars {text : List Char}
    (h : ∀ c ∈ text.getLast?, isBlank c = false) :
    ∃ lead, (∀ c ∈ lead, isBlank c = true) ∧ text = lead ++ trimChars text := by
  refine ⟨text.takeWhile isBlank, fun c => Text.isBlank_of_mem_takeWhile, ?_⟩
  conv_lhs => rw [Text.eq_trimChars text, Text.trailing_eq_nil h, List.append_nil]

/-- **Padded stages hold commands** with the same texts as the stages. -/
theorem exists_commands_padded {texts : List (List Char)} {commands : List Invocation}
    (h : Stages {} texts)
    (hend : ∀ c ∈ (['|'].intercalate texts).getLast?, isBlank c = false)
    (hcommands : List.Forall₂ (fun text command => Invocation.ofChars? text = some command)
      texts commands) :
    ∃ again, List.Forall₂ (fun text command => Invocation.ofChars? text = some command)
        (padded (texts.map trimChars)) again ∧
      List.Forall₂ (fun a b => a.raw = b.raw) commands again := by
  induction texts generalizing commands with
  | nil => exact absurd rfl h.ne_nil
  | cons text rest ih =>
      obtain ⟨command, others, hc, hothers, rfl⟩ := List.forall₂_cons_left_iff.mp hcommands
      cases h with
      | last free =>
          -- nothing is cut off at the end of the last stage
          rw [List.intercalate_singleton] at hend
          obtain ⟨lead, hlead, htext⟩ := exists_eq_append_trimChars hend
          obtain rfl := List.forall₂_nil_left_iff.mp hothers
          have hagain : Invocation.ofChars? (' ' :: trimChars text) = some command := by
            rw [htext, ofChars?_blanks_append hlead] at hc
            rw [ofChars?_blank]
            exact hc
          exact ⟨[command], .cons hagain .nil, .cons rfl .nil⟩
      | more free closed hne stages =>
          have hmap : rest.map trimChars ≠ [] := by simpa using hne
          obtain ⟨again, hagain, hraws⟩ := ih stages (isBlank_getLast?_of_cons hne hend) hothers
          have hwords := wordsOf_trimChars_blank closed (wordsOf_ne_nil_of_ofChars? hc)
          obtain ⟨shown, hshown⟩ := exists_ofChars?_of_ne_nil hwords
          have hraw : command.raw = shown.raw := by
            rw [raw_of_ofChars? hc, raw_of_ofChars? hshown, Text.trimChars_concat rfl,
              Text.trimChars_trimChars]
          rw [← ofChars?_blank] at hshown
          rw [List.map_cons, padded_cons _ hmap]
          exact ⟨shown :: again, .cons hshown hagain, .cons hraw hraws⟩

/-- **Padded stages leave open what the stages do.** -/
theorem after_padded {texts : List (List Char)} (h : Stages {} texts)
    (hend : ∀ c ∈ (['|'].intercalate texts).getLast?, isBlank c = false) :
    Mode.after {} (['|'].intercalate (padded (texts.map trimChars)))
      = Mode.after {} (['|'].intercalate texts) := by
  induction texts with
  | nil => exact absurd rfl h.ne_nil
  | cons text rest ih =>
      cases h with
      | last free =>
          rw [List.intercalate_singleton] at hend
          obtain ⟨lead, hlead, htext⟩ := exists_eq_append_trimChars hend
          rw [List.map_singleton, padded, List.intercalate_singleton, List.intercalate_singleton]
          conv_rhs => rw [htext, Mode.after_append, Mode.after_blanks hlead]
          rfl
      | more free closed hne stages =>
          have hmap : rest.map trimChars ≠ [] := by simpa using hne
          have hstage : Mode.after {} (' ' :: (trimChars text ++ [' '])) = {} := after_blank closed
          rw [List.map_cons, padded_cons _ hmap, intercalate_cons _ (padded_ne_nil hmap),
            intercalate_cons _ hne, Mode.after_append, Mode.after_append, hstage, closed]
          exact ih stages (isBlank_getLast?_of_cons hne hend)

/-- **Padded stages bring in no separator.** -/
theorem noSeparator_padded {texts : List (List Char)} (h : Stages {} texts)
    (hfree : NoSeparator {} (['|'].intercalate texts)) :
    NoSeparator {} (['|'].intercalate (padded (texts.map trimChars))) := by
  induction texts with
  | nil => exact absurd rfl h.ne_nil
  | cons text rest ih =>
      cases h with
      | last free =>
          rw [List.intercalate_singleton, noSeparator_trimChars] at hfree
          rw [List.map_singleton, padded, List.intercalate_singleton,
            noSeparator_cons {} (by decide)]
          exact hfree
      | more free closed hne stages =>
          have hmap : rest.map trimChars ≠ [] := by simpa using hne
          rw [intercalate_cons _ hne, noSeparator_append (by decide), closed,
            noSeparator_cons {} (by decide), noSeparator_trimChars] at hfree
          rw [List.map_cons, padded_cons _ hmap, intercalate_cons _ (padded_ne_nil hmap),
            noSeparator_append (by decide), noSeparator_cons {} (by decide)]
          refine ⟨(noSeparator_append (by decide)).mpr ⟨hfree.1, ?_⟩, ?_⟩
          · exact noSeparator_blanks _ Text.isBlank_of_mem_space
          · have hstage : Mode.after {} (' ' :: (trimChars text ++ [' '])) = {} := after_blank closed
            rw [hstage, noSeparator_cons {} (by decide)]
            exact ih stages hfree.2

end CommandLine

end PocketShell
