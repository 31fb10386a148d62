import PocketShell.Proofs.Checked.Basic
import PocketShell.Proofs.CommandLine.Flags
import PocketShell.Proofs.CommandLine.Splitting
import PocketShell.Tree.Kind

set_option autoImplicit false

/-! # Command lines are cut at the ends of characters

A line is divided at its pipes by their offsets in bytes, and a word is taken apart after its
dashes and at an equals sign, the name of a file at its last point. Whatever characters stand in a
text, each offset is the end of a character, so that none of these divisions fails
(`Checked.pipelineOf_eq`, `Checked.roleOf_eq`, `Checked.extension_eq`).

The division at pipes goes through the characters once and keeps the offset at which the present
command starts. Its invariant is that the text up to the present character is what was divided
before, followed by the present command so far.
-/

namespace PocketShell.Checked

/-! ## Taking texts apart -/

/-- What follows a text in a text that starts with it. -/
def dropPrefix (start cs : List Char) : Option (Option (List Char)) :=
  if start.isPrefixOf cs then (startingAt cs (String.utf8Len start)).map some else some none

/-- The text before and after the first mark. -/
def splitFirst (mark : Char) (cs : List Char) : Option (Option (List Char × List Char)) :=
  match find mark cs with
  | none => some none
  | some n => do return some (← upTo cs n, ← startingAt cs (n + mark.utf8Size))

/-- The text before and after the last mark. -/
def splitLast (mark : Char) (cs : List Char) : Option (Option (List Char × List Char)) :=
  match findLast mark cs with
  | none => some none
  | some n => do return some (← upTo cs n, ← startingAt cs (n + mark.utf8Size))

variable {mark : Char}

theorem dropPrefix_append (start rest : List Char) :
    dropPrefix start (start ++ rest) = some (some rest) := by
  have hstart : start.isPrefixOf (start ++ rest) = true :=
    List.isPrefixOf_iff_prefix.mpr (List.prefix_append start rest)
  rw [dropPrefix, if_pos hstart, startingAt_append]
  rfl

theorem dropPrefix_of_not {start cs : List Char} (h : ¬ start <+: cs) :
    dropPrefix start cs = some none := by
  rw [dropPrefix, if_neg (mt List.isPrefixOf_iff_prefix.mp h)]

theorem startingAt_mark (before after : List Char) :
    startingAt (before ++ mark :: after) (String.utf8Len before + mark.utf8Size) = some after := by
  have hcut := startingAt_append (before ++ [mark]) after
  rw [List.append_assoc, String.utf8Len_append, String.utf8Len_cons, String.utf8Len_nil,
    Nat.zero_add] at hcut
  exact hcut

theorem splitFirst_eq (cs : List Char) : splitFirst mark cs = some (Text.cut? mark cs) := by
  rcases Text.cut?_cases mark cs with ⟨-, hcut⟩ | ⟨before, after, rfl, -, hcut⟩
  · rw [splitFirst, find_eq, hcut]
    rfl
  · rw [splitFirst, find_eq, hcut]
    dsimp only [Option.map_some]
    rw [upTo_append, startingAt_mark]
    rfl

/-- Cutting at the last mark is cutting the text read backwards at its first. -/
theorem splitLast_eq (cs : List Char) :
    splitLast mark cs
      = some ((Text.cut? mark cs.reverse).map fun (after, before) =>
          (before.reverse, after.reverse)) := by
  rcases findLast_cases mark cs with ⟨hmem, hfind⟩ | ⟨before, after, rfl, hafter, hfind⟩
  · rw [splitLast, hfind, Text.cut?_of_notMem (mt List.mem_reverse.mp hmem)]
    rfl
  · have hcut := Text.cut?_append (mt List.mem_reverse.mp hafter) before.reverse
    rw [splitLast, hfind, List.reverse_append, List.reverse_cons, List.append_assoc,
      List.singleton_append, hcut]
    dsimp only
    rw [upTo_append, startingAt_mark]
    simp

/-! ## The roles of words -/

/-- The role of a word: a long flag is what follows two dashes, and is cut at the first equals
sign. -/
def roleOf (word : List Char) : Option WordRole := do
  match ← dropPrefix ['-', '-'] word with
  | some [] => return .argument
  | some long =>
      match ← splitFirst '=' long with
      | some (key, value) => return .longFlag (String.ofList key) (.value (String.ofList value))
      | none => return .longFlag (String.ofList long) .present
  | none =>
      match ← dropPrefix ['-'] word with
      | some (c :: cluster) => return if c.isDigit then .argument else .shortFlags (c :: cluster)
      | _ => return .argument

theorem roleOf_eq (word : List Char) : roleOf word = some (WordRole.of word) := by
  cases word with
  | nil => rfl
  | cons c word =>
      by_cases hc : c = '-'
      · subst hc
        cases word with
        | nil => rfl
        | cons d long =>
            by_cases hd : d = '-'
            · subst hd
              cases long with
              | nil => rfl
              | cons l long =>
                  -- a long flag, with a value or without
                  have hlong : dropPrefix ['-', '-'] ('-' :: '-' :: l :: long)
                      = some (some (l :: long)) := dropPrefix_append ['-', '-'] (l :: long)
                  simp only [roleOf, hlong, splitFirst_eq, Option.bind_eq_bind, Option.bind_some,
                    WordRole.of]
                  cases Text.cut? '=' (l :: long) with
                  | none => rfl
                  | some cut => rfl
            · -- short flags after one dash, or a negative number
              have hlong : dropPrefix ['-', '-'] ('-' :: d :: long) = some none :=
                dropPrefix_of_not (by simp [Ne.symm hd])
              have hshort : dropPrefix ['-'] ('-' :: d :: long) = some (some (d :: long)) :=
                dropPrefix_append ['-'] (d :: long)
              simp only [roleOf, hlong, hshort, Option.bind_eq_bind, Option.bind_some,
                WordRole.of_dash_cons_of_ne hd]
              rfl
      · have hlong : dropPrefix ['-', '-'] (c :: word) = some none :=
          dropPrefix_of_not (by simp [Ne.symm hc])
        have hshort : dropPrefix ['-'] (c :: word) = some none :=
          dropPrefix_of_not (by simp [Ne.symm hc])
        simp only [roleOf, hlong, hshort, Option.bind_eq_bind, Option.bind_some,
          WordRole.of_cons_of_ne hc]
        rfl

/-- The extension of the name of a file: what follows its last point. -/
def extension (name : String) : Option (Option String) := do
  match ← splitLast '.' name.toList with
  | some (stem, ext) =>
      return if stem.isEmpty then none else some (String.ofList (ext.map Char.toLower))
  | none => return none

theorem extension_eq (name : String) : extension name = some (Subtype.extension? name) := by
  rw [extension, splitLast_eq, Subtype.extension?]
  cases Text.cut? '.' name.toList.reverse with
  | none => rfl
  | some cut =>
      obtain ⟨ext, stem⟩ := cut
      show some _ = some _
      simp

/-! ## Dividing at pipes -/

/-- The commands of a text from the character at the offset `i` on, each with the offset of the pipe
that ends it, the last one with that of the pipe before it. The present command starts at the offset
`start`. -/
def stagesFrom (text : List Char) (start pipe i : Nat) :
    List (Char × Bool) → Option (List (List Char × Nat))
  | [] => do return [(← startingAt text start, pipe)]
  | (c, free) :: rest =>
      if free && c == '|' then do
        return (← between text start i, i) :: (← stagesFrom text (i + 1) i (i + c.utf8Size) rest)
      else stagesFrom text start pipe (i + c.utf8Size) rest

/-- The commands of a text, each with the offset of a pipe. -/
def splitPipes (text : List Char) : Option (List (List Char × Nat)) :=
  stagesFrom text 0 0 0 (CommandLine.marked {} text)

/-- Texts that each have the pipe before them, now each with the pipe after it. -/
def endingAt (pipe : Nat) (text : List Char) : List (Nat × List Char) → List (List Char × Nat)
  | [] => [(text, pipe)]
  | (next, more) :: rest => (text, next) :: endingAt next more rest

/-- **The division at pipes goes on** from any point: the present command starts after `before`, and
`present` is what has been seen of it. -/
theorem stagesFrom_eq {cells : List (Char × Bool)} {text before present : List Char}
    {start i : Nat} (htext : text = before ++ (present ++ cells.map Prod.fst))
    (hstart : start = String.utf8Len before) (hi : i = start + String.utf8Len present)
    (pipe : Nat) :
    stagesFrom text start pipe i cells
      = some (endingAt pipe (present ++ (CommandLine.splitPipes i cells).1)
          (CommandLine.splitPipes i cells).2) := by
  -- what was divided off before is carried along: the offsets count from the start of the text
  induction cells generalizing before present start i pipe with
  | nil =>
      rw [stagesFrom, htext, hstart, startingAt_append]
      rfl
  | cons cell rest ih =>
      obtain ⟨c, free⟩ := cell
      rw [stagesFrom, CommandLine.splitPipes_cons]
      split_ifs with hpipe
      · -- the next command starts after the pipe, and nothing has been seen of it
        obtain rfl : c = '|' := by simpa using (Bool.and_eq_true_iff.mp hpipe).2
        have hpresent : between text start i = some present := by
          rw [htext, hi, hstart, between_append]
        have hwidth : String.utf8Len (before ++ (present ++ ['|'])) = i + 1 := by
          rw [String.utf8Len_append, String.utf8Len_append, hi, hstart, ← Nat.add_assoc]
          rfl
        have hrest : text = (before ++ (present ++ ['|'])) ++ ([] ++ rest.map Prod.fst) := by
          rw [htext]
          simp
        have hseen : i + '|'.utf8Size = i + 1 + String.utf8Len [] := rfl
        rw [hpresent, ih hrest hwidth.symm hseen i, List.append_nil]
        rfl
      · have hwidth : i + c.utf8Size = start + String.utf8Len (present ++ [c]) := by
          rw [String.utf8Len_append, String.utf8Len_cons, String.utf8Len_nil, Nat.zero_add, hi,
            Nat.add_assoc]
        have hrest : text = before ++ ((present ++ [c]) ++ rest.map Prod.fst) := by
          rw [htext]
          simp
        rw [ih hrest hstart hwidth pipe, List.append_assoc, List.singleton_append]

theorem splitPipes_eq (text : List Char) :
    let divided := CommandLine.splitPipes 0 (CommandLine.marked {} text)
    splitPipes text = some (endingAt 0 divided.1 divided.2) := by
  have htext : text = [] ++ ([] ++ (CommandLine.marked {} text).map Prod.fst) := by simp
  exact stagesFrom_eq htext rfl rfl 0

/-! ## Pipelines -/

/-- The commands that some texts hold, of which the first has the number `i` and the last the number
`last`. -/
def stagesOf (last i : Nat) : List (List Char × Nat) → Except LineError (List Invocation)
  | [] => .ok []
  | (text, pipe) :: rest =>
      match Invocation.ofChars? text with
      | some command => (stagesOf last (i + 1) rest).map (command :: ·)
      | none =>
          if i = 0 then .error (.unexpectedPipe pipe)
          else if i = last then .error (.trailingPipe pipe)
          else .error (.emptyStage pipe)

/-- The pipeline that a text holds. That there is a first and a last command is taken for
granted. -/
def pipelineOf (text : List Char) : Option (Except LineError Pipeline) := do
  let stages ← splitPipes text
  if stages.length = 1 then
    let (only, _) ← stages[0]?
    return match Invocation.ofChars? only with
      | some command => .ok (.single command)
      | none => .error .emptyCommand
  else
    let last ← sub stages.length 1
    return (stagesOf last 0 stages).map .piped

theorem length_endingAt (pipe : Nat) (text : List Char) (more : List (Nat × List Char)) :
    (endingAt pipe text more).length = more.length + 1 := by
  induction more generalizing pipe text with
  | nil => rfl
  | cons next rest ih => rw [endingAt, List.length_cons, ih, List.length_cons]

/-- After the first command the number tells which is the last. -/
theorem stagesOf_endingAt (more : List (Nat × List Char)) {i : Nat} (hi : i ≠ 0) (pipe : Nat)
    (text : List Char) :
    stagesOf (i + more.length) i (endingAt pipe text more)
      = CommandLine.laterStages ((pipe, text) :: more) := by
  induction more generalizing i pipe text with
  | nil =>
      rw [endingAt, stagesOf, CommandLine.laterStages]
      cases Invocation.ofChars? text with
      | none => simp [hi]
      | some command => rfl
  | cons next rest ih =>
      obtain ⟨following, more⟩ := next
      have hlast : i + ((following, more) :: rest).length = i + 1 + rest.length := by
        rw [List.length_cons]
        omega
      rw [endingAt, stagesOf, CommandLine.laterStages, hlast, ih (Nat.succ_ne_zero i)]
      cases Invocation.ofChars? text with
      | none =>
          have hne : i ≠ i + 1 + rest.length := by omega
          simp [hi, hne]
      | some command => rfl

/-- **Each text is divided into commands** without a cut inside a character. -/
theorem pipelineOf_eq (text : List Char) :
    pipelineOf text = some (CommandLine.pipelineOf text) := by
  rw [pipelineOf, splitPipes_eq, CommandLine.pipelineOf, Option.bind_eq_bind, Option.bind_some]
  generalize CommandLine.splitPipes 0 (CommandLine.marked {} text) = divided
  obtain ⟨first, _ | ⟨⟨pipe, next⟩, rest⟩⟩ := divided
  · rfl
  · have hmany : (endingAt 0 first ((pipe, next) :: rest)).length = 1 + rest.length + 1 := by
      rw [length_endingAt, List.length_cons, Nat.add_comm 1]
    have hlater := stagesOf_endingAt rest Nat.one_ne_zero pipe next
    dsimp only
    rw [if_neg (by omega), hmany, sub_eq (by omega), Nat.add_sub_cancel]
    show some (Except.map _ (stagesOf _ 0 ((first, pipe) :: endingAt pipe next rest))) = some _
    rw [stagesOf, hlater]
    cases Invocation.ofChars? first with
    | none => rfl
    | some command =>
        dsimp only
        cases CommandLine.laterStages ((pipe, next) :: rest) with
        | ok stages => rfl
        | error error => rfl

/-! ## Lines -/

/-- The pipelines of a chain. The first text that holds none ends the reading. -/
def segmentsOf : List (List Char × Option Separator) → Option (Except LineError (List Segment))
  | [] => some (.ok [])
  | (text, separator) :: rest => do
      match ← pipelineOf text with
      | .error error => return .error error
      | .ok command => return (← segmentsOf rest).map ({ command, separator } :: ·)

/-- The line that a text holds. -/
def parse (text : String) : Option (Except LineError Line) :=
  match CommandLine.splitChain (CommandLine.marked {} text.toList) with
  | (_, []) => do return (← pipelineOf text.toList).map .pipeline
  | (first, rest) => do return (← segmentsOf (CommandLine.segmentTexts first rest)).map .chain

theorem segmentsOf_eq (texts : List (List Char × Option Separator)) :
    segmentsOf texts = some (CommandLine.segmentsOf texts) := by
  induction texts with
  | nil => rfl
  | cons first rest ih =>
      obtain ⟨text, separator⟩ := first
      rw [segmentsOf, pipelineOf_eq, CommandLine.segmentsOf, ih]
      cases CommandLine.pipelineOf text with
      | error error => rfl
      | ok command =>
          cases CommandLine.segmentsOf rest with
          | error error => rfl
          | ok segments => rfl

theorem parse_eq (text : String) : parse text = some (CommandLine.parse text) := by
  rw [parse, CommandLine.parse, CommandLine.lineOf]
  generalize CommandLine.splitChain (CommandLine.marked {} text.toList) = divided
  obtain ⟨first, _ | ⟨next, rest⟩⟩ := divided
  · dsimp only
    rw [pipelineOf_eq]
    rfl
  · dsimp only
    rw [segmentsOf_eq]
    rfl

end PocketShell.Checked
