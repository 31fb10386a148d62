import PocketShell.Proofs.CommandLine.Splitting

set_option autoImplicit false

/-! # Chains of lines

Two lines written with a separator between them are one chain: its segments are those of the
first line, the last of them closed by the separator, and then those of the second
(`parse_append`). If one of the lines is no line of commands, the first error is that of the
chain.

The proof follows the stages of the reader. What stands before the separator is divided as if
it ended there (`splitChain_append`), trimming takes away the blanks around the separator
(`segmentTexts_glue`), and the pipelines are read one after the other (`segmentsOf_append`).
-/

namespace PocketShell

/-- The segments of a line; a pipeline is one segment that no separator ends. -/
def Line.segments : Line → List Segment
  | pipeline command => [{ command, separator := none }]
  | chain segments => segments

/-- The segments, with a separator after the last if it had none. -/
def Segment.closeLast (separator : Separator) : List Segment → List Segment
  | [] => []
  | [segment] => [{ segment with separator := some (segment.separator.getD separator) }]
  | segment :: next :: rest => segment :: closeLast separator (next :: rest)

namespace CommandLine

open PocketShell.Text (trimChars)

/-! ## Dividing two texts at once -/

/-- The parts of a text that goes on with another: its last part and the first of the other
are one. -/
def glue (first : List Char) : List (Separator × List Char) →
    List Char × List (Separator × List Char) → List Char × List (Separator × List Char)
  | [], other => (first ++ other.1, other.2)
  | (separator, next) :: rest, other =>
      (first, (separator, (glue next rest other).1) :: (glue next rest other).2)

theorem startsSeparator_append {cells : List (Char × Bool)} (hne : cells ≠ [])
    (h : startsSeparator cells = false) {c : Char} (hc : c ≠ '&') (free : Bool)
    (rest : List (Char × Bool)) : startsSeparator (cells ++ (c, free) :: rest) = false := by
  cases cells with
  | nil => exact absurd rfl hne
  | cons first more =>
      -- the first two characters decide, and the second is no `&` that was not there before
      by_contra hsep
      rw [Bool.not_eq_false] at hsep
      unfold startsSeparator at hsep
      split at hsep
      · next heq =>
          obtain ⟨rfl, -⟩ := List.cons.inj heq
          cases h
      · next heq =>
          obtain ⟨rfl, hrest⟩ := List.cons.inj heq
          cases more with
          | nil =>
              exact hc (Prod.mk.inj (List.cons.inj hrest).1).1
          | cons other more =>
              obtain ⟨rfl, -⟩ := List.cons.inj hrest
              cases h
      · cases hsep

/-- **A text is divided as if it ended** before any character but an `&`. -/
theorem splitChain_append (m : Mode) (cs : List Char) {c : Char} (hc : c ≠ '&') (free : Bool)
    (rest : List (Char × Bool)) :
    splitChain (marked m cs ++ (c, free) :: rest)
      = glue (splitChain (marked m cs)).1 (splitChain (marked m cs)).2
          (splitChain ((c, free) :: rest)) := by
  induction m, cs using marked_induction with
  | nil m => rfl
  | next cs ih =>
      show splitChain ((';', true) :: (marked {} cs ++ _)) = _
      rw [splitChain, ih]
      rfl
  | both cs ih =>
      show splitChain (('&', true) :: ('&', true) :: (marked {} cs ++ _)) = _
      rw [splitChain, ih]
      rfl
  | other m d cs hsep ih =>
      have happ := startsSeparator_append (by simp [marked]) hsep hc free rest
      rw [marked] at hsep happ ⊢
      rw [List.cons_append] at happ ⊢
      rw [splitChain_of_not happ, splitChain_of_not hsep, ih]
      cases (splitChain (marked (m.step d) cs)).2 with
      | nil => rfl
      | cons part more => rfl

/-- A separator between two blanks. -/
theorem splitChain_separator (separator : Separator) (rest : List (Char × Bool)) :
    splitChain ((' ', true) :: (marked {} separator.text.toList ++ (' ', true) :: rest))
      = ([' '], [(separator, ' ' :: (splitChain rest).1)] ++ (splitChain rest).2) := by
  cases separator <;> rfl

/-! ## The texts of the segments -/

/-- The texts of segments, with a separator after the last if it had none. -/
def closeLastText (separator : Separator) :
    List (List Char × Option Separator) → List (List Char × Option Separator)
  | [] => []
  | [text] => [(text.1, some (text.2.getD separator))]
  | text :: next :: rest => text :: closeLastText separator (next :: rest)

theorem closeLastText_cons_some (separator s : Separator) (cs : List Char)
    (rest : List (List Char × Option Separator)) :
    closeLastText separator ((cs, some s) :: rest) = (cs, some s) :: closeLastText separator rest := by
  cases rest <;> rfl

theorem segmentTexts_nil (first : List Char) :
    segmentTexts first [] = if trimChars first = [] then [] else [(trimChars first, none)] := by
  rw [segmentTexts, withSeparators]
  simp [List.filter_cons]

theorem segmentTexts_cons (first : List Char) (separator : Separator) (next : List Char)
    (rest : List (Separator × List Char)) :
    segmentTexts first ((separator, next) :: rest)
      = (if trimChars first = [] then [] else [(trimChars first, some separator)])
        ++ segmentTexts next rest := by
  rw [segmentTexts, withSeparators, List.map_cons, List.filter_cons, segmentTexts]
  by_cases hnil : trimChars first = []
  · simp [hnil]
  · simp [hnil]

/-- A blank before the texts changes nothing. -/
theorem segmentTexts_blank (first : List Char) (rest : List (Separator × List Char)) :
    segmentTexts (' ' :: first) rest = segmentTexts first rest := by
  have htrim : trimChars (' ' :: first) = trimChars first := Text.trimChars_cons rfl first
  cases rest with
  | nil => rw [segmentTexts_nil, segmentTexts_nil, htrim]
  | cons part rest => rw [segmentTexts_cons, segmentTexts_cons, htrim]

/-- **Trimming takes away the blanks around a separator.** -/
theorem segmentTexts_glue (separator : Separator) (first other : List Char)
    (rest more : List (Separator × List Char)) :
    segmentTexts (glue first rest ([' '], (separator, ' ' :: other) :: more)).1
        (glue first rest ([' '], (separator, ' ' :: other) :: more)).2
      = closeLastText separator (segmentTexts first rest) ++ segmentTexts other more := by
  induction rest generalizing first with
  | nil =>
      rw [glue, segmentTexts_cons, segmentTexts_nil, segmentTexts_blank,
        Text.trimChars_concat rfl]
      split_ifs <;> rfl
  | cons part rest ih =>
      obtain ⟨s, next⟩ := part
      rw [glue, segmentTexts_cons, segmentTexts_cons, ih]
      split_ifs
      · rfl
      · rw [List.singleton_append, List.singleton_append, closeLastText_cons_some]
        rfl

/-! ## The segments -/

theorem segmentsOf_cons (text : List Char × Option Separator)
    (texts : List (List Char × Option Separator)) :
    segmentsOf (text :: texts) = do
      let command ← pipelineOf text.1
      let segments ← segmentsOf texts
      return { command, separator := text.2 } :: segments := rfl

theorem segmentsOf_append (texts others : List (List Char × Option Separator)) :
    segmentsOf (texts ++ others) = do
      let first ← segmentsOf texts
      let second ← segmentsOf others
      return first ++ second := by
  induction texts with
  | nil =>
      show segmentsOf others = segmentsOf others >>= fun second => .ok second
      cases segmentsOf others <;> rfl
  | cons text texts ih =>
      rw [List.cons_append, segmentsOf_cons, segmentsOf_cons, ih]
      cases pipelineOf text.1 with
      | error e => rfl
      | ok command =>
          cases segmentsOf texts with
          | error e => rfl
          | ok first => cases segmentsOf others <;> rfl

theorem exists_cons_of_segmentsOf {text : List Char × Option Separator}
    {texts : List (List Char × Option Separator)} {segments : List Segment}
    (h : segmentsOf (text :: texts) = .ok segments) :
    ∃ segment others, segments = segment :: others := by
  obtain ⟨command, -, h⟩ := exists_of_bind_ok h
  obtain ⟨others, -, h⟩ := exists_of_bind_ok h
  exact ⟨_, others, (Except.ok.inj h).symm⟩

theorem segmentsOf_closeLastText (separator : Separator)
    (texts : List (List Char × Option Separator)) :
    segmentsOf (closeLastText separator texts)
      = (segmentsOf texts).map (Segment.closeLast separator) := by
  induction texts with
  | nil => rfl
  | cons text texts ih =>
      cases texts with
      | nil =>
          rw [closeLastText, segmentsOf_cons, segmentsOf_cons]
          cases pipelineOf text.1 <;> rfl
      | cons next rest =>
          rw [closeLastText, segmentsOf_cons, ih, segmentsOf_cons text]
          cases pipelineOf text.1 with
          | error e => rfl
          | ok command =>
              cases hs : segmentsOf (next :: rest) with
              | error e => rfl
              | ok segments =>
                  obtain ⟨segment, others, rfl⟩ := exists_cons_of_segmentsOf hs
                  rfl

theorem lineOf_of_ne_nil {cs : List Char} (h : (splitChain (marked {} cs)).2 ≠ []) :
    lineOf cs = (segmentsOf (segmentTexts (splitChain (marked {} cs)).1
      (splitChain (marked {} cs)).2)).map Line.chain := by
  rw [lineOf]
  generalize splitChain (marked {} cs) = parts at h ⊢
  obtain ⟨first, rest⟩ := parts
  cases rest with
  | nil => exact absurd rfl h
  | cons part rest => rfl

/-- The segments of a trimmed line are those of its texts, also if it is no chain. -/
theorem map_segments_lineOf {cs : List Char} (hne : cs ≠ []) (htrim : trimChars cs = cs) :
    (lineOf cs).map Line.segments
      = segmentsOf (segmentTexts (splitChain (marked {} cs)).1 (splitChain (marked {} cs)).2) := by
  by_cases hnil : (splitChain (marked {} cs)).2 = []
  · have hfirst := splitChain_of_nil {} cs hnil
    rw [lineOf, hfirst, hnil, segmentTexts_nil, htrim, if_neg hne, segmentsOf_cons]
    generalize splitChain (marked {} cs) = parts at hnil ⊢
    obtain ⟨first, rest⟩ := parts
    obtain rfl : rest = [] := hnil
    show ((pipelineOf cs).map Line.pipeline).map Line.segments = _
    cases pipelineOf cs <;> rfl
  · rw [lineOf_of_ne_nil hnil]
    generalize segmentsOf _ = segments
    cases segments <;> rfl

/-! ## Errors -/

/-- The texts of a line that are read as pipelines: the line itself, or what is left of the parts
of a chain. -/
def pipelineTexts (cs : List Char) : List (List Char) :=
  match splitChain (marked {} cs) with
  | (_, []) => [cs]
  | (first, rest) => (segmentTexts first rest).map Prod.fst

theorem exists_error_segmentsOf_iff (texts : List (List Char × Option Separator)) :
    (∃ error, segmentsOf texts = .error error)
      ↔ ∃ text ∈ texts, ∃ error, pipelineOf text.1 = .error error := by
  induction texts with
  | nil =>
      constructor
      · rintro ⟨error, h⟩
        cases h
      · rintro ⟨text, hmem, -⟩
        cases hmem
  | cons text texts ih =>
      rw [segmentsOf_cons]
      cases hp : pipelineOf text.1 with
      | error error =>
          exact iff_of_true ⟨error, rfl⟩ ⟨text, List.mem_cons_self, error, hp⟩
      | ok command =>
          -- the first text is in order, so an error comes from the others
          have hrest : (∃ error, segmentsOf texts = .error error)
              ↔ ∃ other ∈ text :: texts, ∃ error, pipelineOf other.1 = .error error := by
            simp [ih, hp]
          rw [← hrest]
          cases segmentsOf texts with
          | error error => exact iff_of_true ⟨error, rfl⟩ ⟨error, rfl⟩
          | ok segments =>
              constructor
              · rintro ⟨error, h⟩
                cases h
              · rintro ⟨error, h⟩
                cases h

/-- **A line is in error exactly if one of its pipelines is.** -/
theorem exists_error_parse_iff (text : String) :
    (∃ error, parse text = .error error)
      ↔ ∃ part ∈ pipelineTexts text.toList, ∃ error, pipelineOf part = .error error := by
  have hmap : ∀ {α β : Type} (x : Except LineError α) (f : α → β),
      (∃ error, x.map f = .error error) ↔ ∃ error, x = .error error := by
    intro α β x f
    cases x with
    | error error => exact iff_of_true ⟨error, rfl⟩ ⟨error, rfl⟩
    | ok a => simp [Except.map]
  rw [parse, lineOf, pipelineTexts]
  generalize splitChain (marked {} text.toList) = parts
  obtain ⟨first, rest⟩ := parts
  cases rest with
  | nil =>
      rw [hmap]
      simp
  | cons part rest =>
      rw [hmap, exists_error_segmentsOf_iff]
      simp

/-! ## The result -/

theorem trimChars_toList {s : String} (h : Text.trim s = s) : trimChars s.toList = s.toList := by
  conv_rhs => rw [← h, Text.trim, String.toList_ofList]

/-- **Two lines with a separator between them** are the chain of their segments, or the first
error of the two. -/
theorem parse_append {a b : String} (ha : a ≠ "") (hatrim : Text.trim a = a) (hb : b ≠ "")
    (hbtrim : Text.trim b = b) (hplain : (Mode.after {} a.toList).isPlain = true)
    (separator : Separator) :
    parse (a ++ " " ++ separator.text ++ " " ++ b) = do
      let first ← parse a
      let second ← parse b
      return .chain (Segment.closeLast separator first.segments ++ second.segments) := by
  have hane : a.toList ≠ [] := fun h => ha (String.toList_eq_nil_iff.mp h)
  have hbne : b.toList ≠ [] := fun h => hb (String.toList_eq_nil_iff.mp h)
  -- the text of `a` ends where nothing is open, so what follows is read from the start
  have hmarked : marked {} (a ++ " " ++ separator.text ++ " " ++ b).toList
      = marked {} a.toList
        ++ (' ', true) :: (marked {} separator.text.toList ++ (' ', true) :: marked {} b.toList) := by
    simp only [String.toList_append, List.append_assoc]
    rw [marked_append, Mode.isPlain_iff.mp hplain]
    cases separator <;> rfl
  have hsplit : splitChain (marked {} (a ++ " " ++ separator.text ++ " " ++ b).toList)
      = glue (splitChain (marked {} a.toList)).1 (splitChain (marked {} a.toList)).2
          ([' '], (separator, ' ' :: (splitChain (marked {} b.toList)).1)
            :: (splitChain (marked {} b.toList)).2) := by
    rw [hmarked, splitChain_append _ _ (by decide), splitChain_separator]
    rfl
  have hne : (splitChain (marked {} (a ++ " " ++ separator.text ++ " " ++ b).toList)).2 ≠ [] := by
    rw [hsplit]
    cases (splitChain (marked {} a.toList)).2 <;> simp [glue]
  rw [parse, lineOf_of_ne_nil hne, hsplit, segmentTexts_glue, segmentsOf_append,
    segmentsOf_closeLastText, ← map_segments_lineOf hane (trimChars_toList hatrim),
    ← map_segments_lineOf hbne (trimChars_toList hbtrim), parse, parse]
  cases lineOf a.toList with
  | error e => rfl
  | ok first => cases lineOf b.toList <;> rfl

/-- A chain with a quoted separator, and a pipeline that ends with a separator. -/
theorem parse_append_quoted :
    let a := "cd / && echo 'a;b'"
    let b := "ls | wc;"
    (a ≠ "" ∧ Text.trim a = a ∧ b ≠ "" ∧ Text.trim b = b ∧ (Mode.after {} a.toList).isPlain = true) ∧
      parse (a ++ " " ++ Separator.next.text ++ " " ++ b) = do
        let first ← parse a
        let second ← parse b
        return .chain (Segment.closeLast .next first.segments ++ second.segments) := by
  intro a b
  have ha : a ≠ "" ∧ Text.trim a = a := by decide
  have hb : b ≠ "" ∧ Text.trim b = b := by decide
  have hplain : (Mode.after {} a.toList).isPlain = true := by decide
  exact ⟨⟨ha.1, ha.2, hb.1, hb.2, hplain⟩, parse_append ha.1 ha.2 hb.1 hb.2 hplain .next⟩

end CommandLine

end PocketShell
