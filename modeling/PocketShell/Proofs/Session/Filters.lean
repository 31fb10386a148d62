import PocketShell.Proofs.CommandLine.Flags
import PocketShell.Proofs.Session.Frame

set_option autoImplicit false

/-! # Filters at the end of a pipeline

A filter works on the lines of a file that it names, or else on those that it receives. So it makes
no difference whether it names the file or receives what `cat` shows of it
(`Session.cat_pipe_filter`), also if there is no such file.

Each filter is written as a step that reads its lines and a function of these lines
(`Builtin.Shows`). Naming a file changes the step and leaves the function as it is, for the word
that names the file is no flag.
-/

namespace PocketShell

/-! ## One more word -/

namespace Invocation

/-- The invocation with the name of a file as its last word. -/
def withFile (inv : Invocation) (file raw : String) : Invocation :=
  { inv with words := inv.words ++ [file], raw }

variable {inv : Invocation} {file : String} (raw : String)

theorem of_eq_argument (hfile : file.toList.head? ≠ some '-') :
    WordRole.of file.toList = .argument := by
  cases hchars : file.toList with
  | nil => rfl
  | cons c cs =>
      have hc : c ≠ '-' := by simpa [hchars] using hfile
      exact WordRole.of_cons_of_ne hc cs

theorem args_withFile (hfile : file.toList.head? ≠ some '-') :
    (inv.withFile file raw).args = inv.args ++ [file] := by
  rw [args, withFile, List.filter_append, ← args]
  simp [isArgument, of_eq_argument hfile]

theorem hasFlag_withFile (hfile : file.toList.head? ≠ some '-') (name : String) :
    (inv.withFile file raw).hasFlag name = inv.hasFlag name := by
  have hgiven : (inv.withFile file raw).givenFlags = inv.givenFlags := by
    rw [givenFlags, withFile, List.flatMap_append, ← givenFlags]
    simp [of_eq_argument hfile, WordRole.flags]
  rw [hasFlag, flags, hgiven]
  rfl

end Invocation

/-- **A filter that names no file**: `grep` with a pattern, `head` with or without a count, or `wc`.
`grep` and `wc` may have any flags, written in any way. -/
inductive IsFilter (inv : Invocation) : Prop where
  | grep {pattern : String} (hname : inv.name = "grep") (hargs : inv.args = [pattern])
  | head (hname : inv.name = "head") (hwords : inv.words = [])
  | headCount {word : String} {count : Nat} (hname : inv.name = "head")
      (hwords : inv.words = ["-n", word])
      (hcount : Text.numeral? Text.maxWord word.toList = some count)
  | headDigits {c : Char} {digits : List Char} {count : Nat} (hname : inv.name = "head")
      (hwords : inv.words = [String.ofList ('-' :: c :: digits)]) (hdigit : c.isDigit = true)
      (hcount : Text.numeral? Text.maxWord (c :: digits) = some count)
  | wc (hname : inv.name = "wc") (hargs : inv.args = [])

/-! ## Reading lines and showing some -/

namespace Builtin

open ShellM

/-- **The command reads its lines**, of the file if one is named, **and shows what a function makes
of them.** -/
def Shows (command : Command Handler) (inv : Invocation) (file : Option String)
    (shown : List String → List String) : Prop :=
  command.action inv = do return .lines (shown (← readInput command.description.name file))

/-- What is shown of a file, or why it cannot be read. -/
def fileOutcome (files : FileSystem) (file : String) (shown : List String → List String) :
    Except ShellError Output :=
  match files.read file with
  | .ok content => .ok (.lines (shown (Text.lines content)))
  | .error error => .error (.file error)

namespace Shows

variable {command : Command Handler} {inv : Invocation} {shown : List String → List String}

/-- A file that is named is read, whatever comes from the command before. -/
theorem run_file {file : String} (h : Shows command inv (some file) shown)
    (surroundings : Surroundings) (workspace : Workspace) :
    ((command.action inv).run surroundings).run workspace
      = (fileOutcome workspace.files file shown, workspace) := by
  rw [h, fileOutcome, run_bind, readInput, run_bind]
  cases hread : workspace.files.read file with
  | ok content =>
      rw [run_askFiles_of_ok hread]
      rfl
  | error error =>
      rw [run_askFiles_of_error hread]

/-- Without a file the lines are those of the command before. -/
theorem run_input (h : Shows command inv none shown) {surroundings : Surroundings}
    {lines : List String} (hinput : surroundings.input = some lines) (workspace : Workspace) :
    ((command.action inv).run surroundings).run workspace
      = (.ok (.lines (shown lines)), workspace) := by
  obtain ⟨catalogue, settings, input⟩ := surroundings
  obtain rfl : input = some lines := hinput
  have hread : ((readInput command.description.name none).run
      { catalogue, settings, input := some lines }).run workspace = (.ok lines, workspace) := rfl
  rw [h, run_bind, hread]
  rfl

end Shows

/-! ## The commands -/

theorem cat_shows {inv : Invocation} {file : String} (hargs : inv.args = [file]) :
    Shows cat inv (some file) id := by
  rw [Shows, cat]
  simp [hargs, readInput]

variable {inv : Invocation} {file : Option String}

theorem grep_shows {pattern : String} (hpattern : inv.arg? 0 = some pattern)
    (hfile : inv.arg? 1 = file) :
    Shows grep inv file
      (Selection.output { pattern, ignoreCase := inv.hasFlag "i", invert := inv.hasFlag "v" }
        (inv.hasFlag "c") (inv.hasFlag "n")) := by
  rw [Shows, grep]
  simp only [hpattern, hfile]
  rfl

theorem head_shows {count : Nat} (h : headOf 10 none inv.words = pure (count, file)) :
    Shows head inv file (List.take count) := by
  rw [Shows, head]
  simp only [h]
  rfl

/-- The numbers of lines, words and bytes, or the one that is asked for. -/
def countLines (onlyLines onlyWords onlyBytes : Bool) (input : List String) : List String :=
  let lines := toString input.length
  let words := toString (wordCount input)
  let bytes := toString (byteCount input)
  [if onlyLines then lines
    else if onlyWords then words
    else if onlyBytes then bytes
    else s!"{Text.alignRight 7 lines} {Text.alignRight 7 words} {Text.alignRight 7 bytes}"]

theorem wc_shows (hfile : inv.arg? 0 = file) :
    Shows wc inv file (countLines (inv.hasFlag "l") (inv.hasFlag "w") (inv.hasFlag "c")) := by
  rw [Shows, wc]
  simp only [hfile]
  rfl

theorem readCount_of_numeral {command word : String} {count : Nat}
    (h : Text.numeral? Text.maxWord word.toList = some count) :
    readCount command (some word) = pure count := by
  simp only [readCount, h]

theorem headOf_count (default : Nat) (file : Option String) {word : String} {count : Nat}
    (h : Text.numeral? Text.maxWord word.toList = some count) (rest : List String) :
    headOf default file ("-n" :: word :: rest) = headOf count file rest := by
  rw [headOf, readCount_of_numeral h, pure_bind]

theorem headOf_digits (default : Nat) (file : Option String) {c : Char} {digits : List Char}
    {count : Nat} (hdigit : c.isDigit = true)
    (h : Text.numeral? Text.maxWord (c :: digits) = some count) (rest : List String) :
    headOf default file (String.ofList ('-' :: c :: digits) :: rest) = headOf count file rest := by
  have hn : String.ofList ('-' :: c :: digits) ≠ "-n" := by
    intro heq
    have hchars := congrArg String.toList heq
    rw [String.toList_ofList] at hchars
    obtain rfl : c = 'n' := (List.cons.inj (List.cons.inj hchars).2).1
    exact absurd hdigit (by decide)
  have hcount : readCount "head" (some (String.ofList (c :: digits))) = pure count :=
    readCount_of_numeral (by rwa [String.toList_ofList])
  rw [headOf, String.toList_ofList]
  · show (if c.isDigit = true then readCount "head" (some (String.ofList (c :: digits))) >>=
        fun count => headOf count file rest else _) = _
    rw [if_pos hdigit, hcount, pure_bind]
  · exact fun heq => absurd heq hn
  · exact fun _ _ heq => absurd heq hn

/-- A word without a dash is the file. -/
theorem headOf_file (count : Nat) {name : String} (hname : name.toList.head? ≠ some '-') :
    headOf count none [name] = pure (count, some name) := by
  have hn : name ≠ "-n" := by
    rintro rfl
    exact hname rfl
  rw [headOf]
  · split
    · next hchars => exact absurd (by rw [hchars]; rfl) hname
    · rfl
  · exact fun heq => absurd heq hn
  · exact fun _ _ heq => absurd heq hn

/-- `head` takes as many lines of a file as of its input, if its words give a count. -/
theorem head_shows_withFile {name : String} (hname : name.toList.head? ≠ some '-') (raw : String)
    {count : Nat} (h : ∀ file rest, headOf 10 file (inv.words ++ rest) = headOf count file rest) :
    Shows head inv none (List.take count) ∧
      Shows head (inv.withFile name raw) (some name) (List.take count) := by
  refine ⟨head_shows ?_, head_shows ?_⟩
  · have hwords := h none []
    rwa [List.append_nil] at hwords
  · exact (h none [name]).trans (headOf_file count hname)

/-- **The invocation starts the command** in every workspace: it has the arguments that the command
requires, and the command needs no service. -/
structure Starts (command : Command Handler) (inv : Invocation) : Prop where
  mem : command ∈ commands
  name_eq : inv.name = command.description.name
  args : command.description.requiresArgs = true → inv.args ≠ []
  needs : command.description.needs = []

theorem Starts.withFile {command : Command Handler} (h : Starts command inv) {name : String}
    (hname : name.toList.head? ≠ some '-') (raw : String) :
    Starts command (inv.withFile name raw) := by
  refine ⟨h.mem, h.name_eq, fun _ => ?_, h.needs⟩
  rw [Invocation.args_withFile raw hname]
  exact List.append_ne_nil_of_right_ne_nil _ (List.cons_ne_nil _ _)

theorem starts_cat {name : String} (hargs : inv.args = [name]) (hcommand : inv.name = "cat") :
    Starts cat inv :=
  ⟨by simp [commands, fileCommands], hcommand, fun _ => by simp [hargs], rfl⟩

/-- `grep` selects the same lines of a file as of its input. -/
theorem grep_shows_withFile {name : String} (hname : name.toList.head? ≠ some '-') (raw : String)
    {pattern : String} (hargs : inv.args = [pattern]) :
    ∃ shown, Shows grep inv none shown ∧ Shows grep (inv.withFile name raw) (some name) shown := by
  have hargs' : (inv.withFile name raw).args = [pattern, name] := by
    rw [Invocation.args_withFile raw hname, hargs]
    rfl
  have hpattern : inv.arg? 0 = some pattern := by simp [Invocation.arg?, hargs]
  have hpattern' : (inv.withFile name raw).arg? 0 = some pattern := by
    simp [Invocation.arg?, hargs']
  have hpiped : Shows grep inv none _ := grep_shows hpattern (by simp [Invocation.arg?, hargs])
  have hnamed : Shows grep (inv.withFile name raw) (some name) _ :=
    grep_shows hpattern' (by simp [Invocation.arg?, hargs'])
  simp only [Invocation.hasFlag_withFile raw hname] at hnamed
  exact ⟨_, hpiped, hnamed⟩

/-- `wc` counts the same in a file as in its input. -/
theorem wc_shows_withFile {name : String} (hname : name.toList.head? ≠ some '-') (raw : String)
    (hargs : inv.args = []) :
    ∃ shown, Shows wc inv none shown ∧ Shows wc (inv.withFile name raw) (some name) shown := by
  have hargs' : (inv.withFile name raw).args = [name] := by
    rw [Invocation.args_withFile raw hname, hargs]
    rfl
  have hpiped : Shows wc inv none _ := wc_shows (by simp [Invocation.arg?, hargs])
  have hnamed : Shows wc (inv.withFile name raw) (some name) _ :=
    wc_shows (by simp [Invocation.arg?, hargs'])
  simp only [Invocation.hasFlag_withFile raw hname] at hnamed
  exact ⟨_, hpiped, hnamed⟩

/-- **Naming a file does not change what a filter shows of its lines.** -/
theorem exists_shows (hfilter : IsFilter inv) {name : String}
    (hname : name.toList.head? ≠ some '-') (raw : String) :
    ∃ command shown, Starts command inv ∧ Shows command inv none shown ∧
      Shows command (inv.withFile name raw) (some name) shown := by
  have hhead : inv.name = "head" → Starts head inv := fun hcommand =>
    ⟨by simp [commands, filterCommands], hcommand,
      fun hrequires => absurd hrequires (by decide), rfl⟩
  cases hfilter with
  | grep hcommand hargs =>
      obtain ⟨shown, hshown⟩ := grep_shows_withFile hname raw hargs
      exact ⟨grep, shown, ⟨by simp [commands, filterCommands], hcommand,
        fun _ => by simp [hargs], rfl⟩, hshown⟩
  | head hcommand hwords =>
      exact ⟨head, _, hhead hcommand, head_shows_withFile hname raw fun file rest => by
        rw [hwords, List.nil_append]⟩
  | headCount hcommand hwords hcount =>
      exact ⟨head, _, hhead hcommand, head_shows_withFile hname raw fun file rest => by
        rw [hwords]
        exact headOf_count 10 file hcount rest⟩
  | headDigits hcommand hwords hdigit hcount =>
      exact ⟨head, _, hhead hcommand, head_shows_withFile hname raw fun file rest => by
        rw [hwords]
        exact headOf_digits 10 file hdigit hcount rest⟩
  | wc hcommand hargs =>
      obtain ⟨shown, hshown⟩ := wc_shows_withFile hname raw hargs
      exact ⟨wc, shown, ⟨by simp [commands, filterCommands], hcommand,
        fun hrequires => absurd hrequires (by decide), rfl⟩, hshown⟩

end Builtin

/-! ## In a session -/

namespace Session

variable {session : Session}

theorem run_of_starts (h : session.registry = Builtin.registry) {command : Command Handler}
    {inv : Invocation} (hstarts : Builtin.Starts command inv) (workspace : Workspace)
    (input : Option (List String)) :
    session.run workspace input inv
      = ((command.action inv).run {
          catalogue := session.registry.catalogue
          settings := session.settings
          input }).run workspace := by
  refine run_of_started?_eq_some ?_ input
  have hcommand : session.command? inv.name = some command := by
    rw [hstarts.name_eq]
    exact command?_of_mem h hstarts.mem
  have hargs : (command.description.requiresArgs && inv.args.isEmpty) = false := by
    rw [Bool.and_eq_false_imp]
    exact fun hrequires => List.isEmpty_eq_false_iff.mpr (hstarts.args hrequires)
  rw [started?, hcommand, Option.filter_some, hargs, hstarts.needs]
  rfl

/-- A command that names a file renders what it shows of it. -/
theorem runPipeline_file (h : session.registry = Builtin.registry) {command : Command Handler}
    {inv : Invocation} {file : String} {shown : List String → List String}
    (hstarts : Builtin.Starts command inv) (hshows : Builtin.Shows command inv (some file) shown)
    (workspace : Workspace) :
    session.runPipeline workspace (.single inv)
      = (Builtin.fileOutcome workspace.files file shown, workspace) :=
  (run_of_starts h hstarts workspace none).trans (hshows.run_file _ workspace)

/-- A command that receives what `cat` shows of a file renders the same as if it named the file. -/
theorem runPipeline_cat (h : session.registry = Builtin.registry) {command : Command Handler}
    {cat inv : Invocation} {file : String} {shown : List String → List String}
    (hcat : cat.name = "cat") (hargs : cat.args = [file]) (hstarts : Builtin.Starts command inv)
    (hshows : Builtin.Shows command inv none shown) (workspace : Workspace) :
    session.runPipeline workspace (.piped [cat, inv])
      = (Builtin.fileOutcome workspace.files file shown, workspace) := by
  have hrunCat : session.run workspace none cat
      = (Builtin.fileOutcome workspace.files file id, workspace) :=
    runPipeline_file h (Builtin.starts_cat hargs hcat) (Builtin.cat_shows hargs) workspace
  rw [runPipeline, runStages, hrunCat, Builtin.fileOutcome, Builtin.fileOutcome]
  · cases workspace.files.read file with
    | error error => rfl
    | ok content =>
        exact (run_of_starts h hstarts workspace _).trans (hshows.run_input rfl workspace)
  · exact List.cons_ne_nil _ _

/-- **A filter may name a file or receive what `cat` shows of it.** Both render the same, and both
leave the workspace as it is. If the file can be read they render lines of text, and otherwise the
error that says why not. -/
theorem cat_pipe_filter (h : session.registry = Builtin.registry) {filter : Invocation}
    (hfilter : IsFilter filter) {file : String} (hfile : file.toList.head? ≠ some '-')
    (catRaw filterRaw : String) (workspace : Workspace) (rendering : Rendering) :
    let cat : Invocation := { name := "cat", words := [file], raw := catRaw }
    let piped := session.runLine workspace rendering (.pipeline (.piped [cat, filter]))
    let named := session.runLine workspace rendering
      (.pipeline (.single (filter.withFile file filterRaw)))
    piped = named ∧
      (∀ content, workspace.files.read file = .ok content →
        ∃ texts, named = (rendering.add (.ok (.lines texts)), workspace)) ∧
      ∀ error, workspace.files.read file = .error error →
        named = (rendering.add (.error (.file error)), workspace) := by
  intro cat piped named
  obtain ⟨command, shown, hstarts, hpiped, hnamed⟩ :=
    Builtin.exists_shows hfilter hfile filterRaw
  have hcat : cat.args = [file] := by
    simp [Invocation.args, cat, Invocation.isArgument, Invocation.of_eq_argument hfile]
  have hrunPiped := runPipeline_cat h rfl hcat hstarts hpiped workspace
  have hrunNamed := runPipeline_file h (hstarts.withFile hfile filterRaw) hnamed workspace
  have hnamedEq : named = (rendering.add (Builtin.fileOutcome workspace.files file shown),
      workspace) := by
    simp only [named, runLine, hrunNamed]
  refine ⟨?_, fun content hread => ?_, fun error hread => ?_⟩
  · rw [hnamedEq]
    simp only [piped, runLine, hrunPiped]
  · refine ⟨shown (Text.lines content), ?_⟩
    rw [hnamedEq, Builtin.fileOutcome, hread]
  · rw [hnamedEq, Builtin.fileOutcome, hread]

/-- A file with a blank line, a carriage return at the end of a line and no line feed at its end, a
folder and a name that nothing has, seen by a session that has made a folder. -/
theorem cat_pipe_filter_lines :
    ∃ files, FileSystem.ofRecord (.folder "" [.file "n" "One\r\n\ntwo\ro"]) = .ok files ∧
      let session := (start Builtin.registry files .bare {}).actAll [.submit "mkdir d"]
      let grep : Invocation := { name := "grep", words := ["-vi", "W", "-n"], raw := "" }
      let head : Invocation := { name := "head", words := ["-1"], raw := "" }
      let wc : Invocation := { name := "wc", words := ["-lx"], raw := "" }
      let piped (file : String) (filter : Invocation) :=
        (session.runLine session.workspace {} (.pipeline (.piped
          [{ name := "cat", words := [file], raw := "" }, filter]))).1.lines
      let named (file : String) (filter : Invocation) :=
        (session.runLine session.workspace {}
          (.pipeline (.single (filter.withFile file "")))).1.lines
      piped "n" grep = named "n" grep ∧ named "n" grep = [.text "1:One", .text "2:"] ∧
        piped "d" head = named "d" head ∧ named "d" head = [.error "is a directory: /d"] ∧
        piped "m" wc = named "m" wc ∧ named "m" wc = [.error "no such file or directory: /m"] := by
  refine ⟨_, rfl, ?_⟩
  intro session grep head wc piped named
  have hregistry : session.registry = Builtin.registry := registry_actAll _ _
  have hsame : ∀ filter file, IsFilter filter → file.toList.head? ≠ some '-' →
      piped file filter = named file filter := fun filter file hfilter hfile =>
    congrArg (fun run => run.1.lines)
      (cat_pipe_filter hregistry hfilter hfile "" "" session.workspace {}).1
  have hargs : grep.args = ["W"] := by decide +kernel
  have hcount : Text.numeral? Text.maxWord ['1'] = some 1 := by decide
  refine ⟨hsame _ _ (.grep rfl hargs) (by decide), ?_,
    hsame _ _ (.headDigits rfl rfl (by decide) hcount) (by decide), ?_,
    hsame _ _ (.wc rfl (by decide +kernel)) (by decide), ?_⟩
  · decide +kernel
  · decide +kernel
  · decide +kernel

end Session

end PocketShell
