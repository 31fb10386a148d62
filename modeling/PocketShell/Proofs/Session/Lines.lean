import PocketShell.Proofs.Session.Frame
import PocketShell.Proofs.Session.Scrollback
import PocketShell.Proofs.Shell.DesktopLines

set_option autoImplicit false

/-! # When each rendered text is one line

An output has one text for each line that is rendered, and the filters count texts as lines. But a
word can hold a line feed: in double quotes `\n` stands for one. Some commands print their words as
they are, or give them to files, aliases, variables and windows, whose names others print. So a text
may come out that is two lines (`touch_breaks_line`).

This is the only way. If a session starts without line feeds in its data, and no line is submitted
that holds one, and no command of `Builtin.wordKeepers` runs with one in a word (`Session.Tame`),
then every text that is rendered is one line, and so is every text that goes from one command of a
pipeline to the next (`submit_onLines`). What each command keeps, a pipeline keeps
(`onLines_stageExecutions`), and so does a line and a session.
-/

namespace PocketShell

open PocketShell.Text (IsLine)

/-- The settings hold no line feed. -/
structure Settings.OnLines (settings : Settings) : Prop where
  user : IsLine settings.user
  hostname : IsLine settings.hostname
  owner : IsLine settings.owner
  env : OnLinesMap settings.env
  aliases : OnLinesMap settings.aliases

/-- What a command has received, has put out and has left holds no line feed. -/
structure Execution.OnLines (execution : Execution) : Prop where
  input : ∀ lines, execution.input = some lines → ∀ line ∈ lines, IsLine line
  outcome : ∀ output, execution.outcome = .ok output → output.OnLines
  after : execution.after.OnLines

/-- What holds at the start and of what each command leaves, holds at the end. -/
theorem Leads.last {P : Workspace → Prop} {a b : Workspace} {executions : List Execution}
    (h : Leads a executions b) (ha : P a) (hafter : ∀ execution ∈ executions, P execution.after) :
    P b := by
  induction h with
  | nil => exact ha
  | cons _ _ ih =>
      obtain ⟨hfirst, hrest⟩ := List.forall_mem_cons.mp hafter
      exact ih hfirst hrest

namespace Session

variable {session : Session}

/-! ## The commands of a line -/

/-- A command that keeps words has received none with a line feed. -/
def Tame (session : Session) (execution : Execution) : Prop :=
  ∀ command ∈ session.started? execution.before execution.command,
    command.description.name ∈ Builtin.wordKeepers → Builtin.WordsOnLines execution.command

theorem run_onLines (h : session.registry = Builtin.registry) {execution : Execution}
    (hrun : session.IsRun execution) (htame : session.Tame execution)
    (hbefore : execution.before.OnLines)
    (hinput : ∀ lines, execution.input = some lines → ∀ line ∈ lines, IsLine line) :
    execution.OnLines := by
  unfold IsRun at hrun
  cases hstarted : session.started? execution.before execution.command with
  | none =>
      obtain ⟨error, hsame⟩ := run_of_started?_eq_none hstarted execution.input
      obtain ⟨houtcome, hafter⟩ := Prod.mk.inj (hrun.symm.trans hsame)
      refine ⟨hinput, fun output hok => ?_, by rwa [hafter]⟩
      rw [houtcome] at hok
      cases hok
  | some command =>
      have hmem := mem_commands_of_command? h (Option.filter_eq_some_iff.mp hstarted).1
      have hprints := Builtin.commands_printLines hmem (htame command hstarted)
      have hensures := hprints
        { catalogue := session.registry.catalogue
          settings := session.settings
          input := execution.input } ⟨by rw [h], hinput⟩ execution.before hbefore
      rw [run_of_started?_eq_some hstarted] at hrun
      refine ⟨hinput, fun output hok => hensures.answer ?_, ?_⟩
      · rw [hrun]
        exact hok
      · have hafter := hensures.after
        rwa [hrun] at hafter

/-- **What each command keeps, a pipeline keeps**: a command receives what the one before it has put
out. -/
theorem onLines_stageExecutions (h : session.registry = Builtin.registry) {workspace : Workspace}
    (hw : workspace.OnLines) {input : Option (List String)}
    (hinput : ∀ lines, input = some lines → ∀ line ∈ lines, IsLine line)
    {stages : List Invocation}
    (htame : ∀ execution ∈ session.stageExecutions workspace input stages,
      session.Tame execution) :
    ∀ execution ∈ session.stageExecutions workspace input stages, execution.OnLines := by
  have hruns := session.isRun_stageExecutions workspace input stages
  fun_induction stageExecutions session workspace input stages with
  | case1 workspace input => exact List.forall_mem_nil _
  | case2 workspace input inv rest output after hrun ih =>
      obtain ⟨hfirst, hrest⟩ := List.forall_mem_cons.mp htame
      obtain ⟨hrun, hruns⟩ := List.forall_mem_cons.mp hruns
      have honLines := run_onLines h hrun hfirst hw hinput
      refine List.forall_mem_cons.mpr
        ⟨honLines, ih honLines.after (fun lines hlines => ?_) hrest hruns⟩
      rw [← Option.some.inj hlines]
      exact honLines.outcome output rfl
  | case3 workspace input inv rest error after hrun =>
      refine List.forall_mem_singleton.mpr ?_
      exact run_onLines h (hruns _ (List.mem_singleton_self _))
        (htame _ (List.mem_singleton_self _)) hw hinput

theorem onLines_segmentExecutions (h : session.registry = Builtin.registry)
    {workspace : Workspace} (hw : workspace.OnLines) {segments : List Segment}
    (htame : ∀ execution ∈ session.segmentExecutions workspace segments,
      session.Tame execution) :
    ∀ execution ∈ session.segmentExecutions workspace segments, execution.OnLines := by
  induction segments generalizing workspace with
  | nil => exact List.forall_mem_nil _
  | cons segment rest ih =>
      rw [segmentExecutions] at htame ⊢
      obtain ⟨hfirst, hrest⟩ := List.forall_mem_append.mp htame
      have hstages := onLines_stageExecutions h hw (by simp) hfirst
      have hleads := session.leads_runStages workspace none segment.command.stages
      rw [← runPipeline_eq] at hleads
      have hafter := hleads.last hw fun execution hmem => (hstages execution hmem).after
      exact List.forall_mem_append.mpr ⟨hstages, ih hafter hrest⟩

theorem onLines_lineExecutions (h : session.registry = Builtin.registry) {workspace : Workspace}
    (hw : workspace.OnLines) {line : Line}
    (htame : ∀ execution ∈ session.lineExecutions workspace line, session.Tame execution) :
    ∀ execution ∈ session.lineExecutions workspace line, execution.OnLines := by
  cases line with
  | pipeline pipeline => exact onLines_stageExecutions h hw (by simp) htame
  | chain segments => exact onLines_segmentExecutions h hw htame

/-! ## Submitted lines -/

/-- A line that is submitted holds no line feed, and no command that it runs keeps one. -/
def TameAction (session : Session) : UserAction → Prop
  | .submit input =>
      IsLine (Text.trim input) ∧
        ∀ execution ∈ session.executions input, session.Tame execution
  | .historyUp | .historyDown => True

/-- All that a user does is tame, one action after the other. -/
def TameActions (session : Session) : List UserAction → Prop
  | [] => True
  | action :: rest => session.TameAction action ∧ (session.act action).TameActions rest

/-- The line that enters the history is the one that is submitted, or an entry already. -/
theorem isLine_of_recorded? (hw : session.workspace.OnLines) {input line : String}
    (hinput : IsLine (Text.trim input)) (h : session.recorded? input = some line) :
    IsLine line := by
  obtain ⟨-, hexpand⟩ := (session.recorded?_eq_some_iff input line).mp h
  rw [expandHistory] at hexpand
  split at hexpand
  · rwa [← Except.ok.inj hexpand]
  · next reference _ =>
      split at hexpand
      · next entry hentry =>
          rw [← Except.ok.inj hexpand]
          cases reference with
          | last => exact hw.history entry (List.mem_of_getLast? hentry)
          | entry number =>
              cases number with
              | zero => cases hentry
              | succ number => exact hw.history entry (List.mem_of_getElem? hentry)
      · cases hexpand

/-- The workspace in which the commands of a line begin. -/
theorem onLines_recorded (hw : session.workspace.OnLines) {input : String}
    (hinput : IsLine (Text.trim input)) :
    Workspace.OnLines { session.workspace with
      history := session.history ++ (session.recorded? input).toList } := by
  refine ⟨hw.files, hw.env, hw.aliases, ?_, hw.desktop⟩
  refine List.forall_mem_append.mpr ⟨hw.history, fun line hline => ?_⟩
  exact isLine_of_recorded? hw hinput (Option.mem_toList.mp hline)

theorem onLines_executions (h : session.registry = Builtin.registry)
    (hw : session.workspace.OnLines) {input : String} (htame : session.TameAction (.submit input)) :
    ∀ execution ∈ session.executions input, execution.OnLines := by
  obtain ⟨hinput, htame⟩ := htame
  have hrecorded := onLines_recorded hw hinput
  unfold executions at htame ⊢
  split
  · exact List.forall_mem_nil _
  · next line hline =>
      rw [hline] at htame hrecorded
      dsimp only at htame
      split
      · exact List.forall_mem_nil _
      · next commands hparse =>
          rw [hparse] at htame
          have hregistry : (record { session with cursor := none } line).registry
              = Builtin.registry := h
          exact onLines_lineExecutions hregistry hrecorded htame

/-- **A tame action leaves a workspace without line feeds.** -/
theorem onLines_act (h : session.registry = Builtin.registry) (hw : session.workspace.OnLines)
    {action : UserAction} (htame : session.TameAction action) :
    (session.act action).workspace.OnLines := by
  cases action with
  | submit input =>
      refine (session.leads_submit input).last (onLines_recorded hw htame.1) ?_
      exact fun execution hmem => (onLines_executions h hw htame execution hmem).after
  | historyUp =>
      obtain ⟨cursor, heq⟩ := session.historyUp_eq
      rw [act, heq]
      exact hw
  | historyDown =>
      obtain ⟨cursor, heq⟩ := session.historyDown_eq
      rw [act, heq]
      exact hw

theorem tameActions_append {actions more : List UserAction} :
    session.TameActions (actions ++ more)
      ↔ session.TameActions actions ∧ (session.actAll actions).TameActions more := by
  induction actions generalizing session with
  | nil => exact (true_and _).symm.to_iff
  | cons action rest ih =>
      rw [List.cons_append, TameActions, TameActions, ih, and_assoc]
      rfl

theorem onLines_actAll (h : session.registry = Builtin.registry) (hw : session.workspace.OnLines)
    {actions : List UserAction} (htame : session.TameActions actions) :
    (session.actAll actions).workspace.OnLines := by
  induction actions generalizing session with
  | nil => exact hw
  | cons action rest ih =>
      exact ih ((session.registry_act action).trans h) (onLines_act h hw htame.1) htame.2

/-! ## What is rendered -/

theorem mem_of_mem_sinceCleared {line : OutputLine} {events : List ScreenEvent}
    (h : line ∈ sinceCleared events) : .shown line ∈ events := by
  induction events with
  | nil => cases h
  | cons event rest ih =>
      cases event with
      | shown other =>
          rw [sinceCleared] at h
          split_ifs at h
          · exact List.mem_cons_of_mem _ (ih h)
          · rcases List.mem_cons.mp h with rfl | h
            · exact List.mem_cons_self
            · exact List.mem_cons_of_mem _ (ih h)
      | cleared => exact List.mem_cons_of_mem _ (ih h)

/-- A text that is rendered is of the output of a command. -/
theorem exists_execution_of_text {input text : String}
    (h : OutputLine.text text ∈ (session.submit input).1) :
    ∃ execution ∈ session.executions input, ∃ output,
      execution.outcome = .ok output ∧ text ∈ output.forNext := by
  rw [(session.submit_of_events input).1] at h
  have hevent := mem_of_mem_sinceCleared h
  rw [events, List.mem_append, List.mem_cons] at hevent
  rcases hevent with (hprompt | hfailure) | hevent
  · cases hprompt
  · obtain ⟨error, -, heq⟩ := List.mem_map.mp hfailure
    cases heq
  · obtain ⟨execution, hmem, hevent⟩ := List.mem_flatMap.mp hevent
    refine ⟨execution, hmem, ?_⟩
    rw [Execution.events] at hevent
    split at hevent
    · next output houtcome =>
        refine ⟨output, houtcome, ?_⟩
        split_ifs at hevent
        · cases output with
          | lines texts =>
              obtain ⟨other, hother, heq⟩ := List.mem_map.mp hevent
              cases heq
              exact hother
          | nothing => cases hevent
          | clear => simp [resultEvents] at hevent
        · cases hevent
    · simp [resultEvents] at hevent

/-! ## Every session -/

theorem onLines_startEnv {settings : Settings} (h : settings.OnLines) :
    OnLinesMap (startEnv settings) := by
  have hstart : OnLinesMap (Std.TreeMap.ofList
      [("USER", settings.user), ("HOSTNAME", settings.hostname), ("HOME", Path.root),
        ("SHELL", "folio")]) := by
    have hempty : OnLinesMap (∅ : Std.TreeMap String String) := by
      intro name value hvalue
      rw [Std.TreeMap.getElem?_emptyc] at hvalue
      cases hvalue
    simp only [Std.TreeMap.ofList_cons, Std.TreeMap.insertMany_cons, Std.TreeMap.insertMany_nil]
    exact (((hempty.insert (by decide) h.user).insert (by decide) h.hostname).insert (by decide)
      (by decide)).insert (by decide) (by decide)
  have key : ∀ (entries : List (String × String)) (env : Std.TreeMap String String),
      (∀ entry ∈ entries, IsLine entry.1 ∧ IsLine entry.2) → OnLinesMap env →
        OnLinesMap (entries.foldl (fun env entry => env.insert entry.1 entry.2) env) := by
    intro entries
    induction entries with
    | nil => exact fun env _ henv => henv
    | cons entry rest ih =>
        intro env hentries henv
        obtain ⟨hentry, hrest⟩ := List.forall_mem_cons.mp hentries
        exact ih _ hrest (henv.insert hentry.1 hentry.2)
  exact key _ _ (fun entry hentry => h.env.of_mem_toList hentry) hstart

/-- **A session starts without line feeds** if its files, its desktop and its settings hold none. -/
theorem onLines_start {files : FileSystem} (hfiles : files.Reachable)
    (hpaths : ∀ path, (files.lookup path).isSome = true → IsLine path) {desktop : Desktop}
    (hdesktop : desktop.OnLines) {settings : Settings} (hsettings : settings.OnLines) :
    (start Builtin.registry files desktop settings).workspace.OnLines := by
  obtain ⟨plain, hmirrors⟩ := hfiles.exists_mirrors
  refine ⟨⟨⟨plain, hmirrors.shows.congr rfl rfl, hmirrors.cwd_eq, hmirrors.earlier_eq,
    hmirrors.clock_eq, hmirrors.readings_eq⟩, ?_, ?_, hsettings.owner⟩, onLines_startEnv hsettings,
    hsettings.aliases, List.forall_mem_nil _, hdesktop⟩
  · intro path node hnode
    have hnode : files.lookup path = some node := hnode
    exact hpaths path (by rw [hnode]; rfl)
  · -- a directory gone through exists
    intro dir hdir
    obtain ⟨node, hnode, -⟩ := hfiles.sound.hasFolder dir hdir
    exact hpaths dir (by rw [hnode]; rfl)

/-- **When each rendered text is one line.** If a session with the built-in commands starts without
line feeds and all that its user does is tame, then every text that is rendered for a submitted line
is one line, and so is every text that a command of a pipeline receives from the one before it. -/
theorem submit_onLines {files : FileSystem} (hfiles : files.Reachable)
    (hpaths : ∀ path, (files.lookup path).isSome = true → IsLine path) {desktop : Desktop}
    (hdesktop : desktop.OnLines) {settings : Settings} (hsettings : settings.OnLines)
    {actions : List UserAction} {input : String}
    (htame : (start Builtin.registry files desktop settings).TameActions
      (actions ++ [.submit input])) :
    let session := (start Builtin.registry files desktop settings).actAll actions
    (∀ text, .text text ∈ (session.submit input).1 → IsLine text) ∧
      ∀ execution ∈ session.executions input, ∀ lines, execution.input = some lines →
        ∀ line ∈ lines, IsLine line := by
  intro session
  have hregistry : session.registry = Builtin.registry := registry_actAll _ actions
  obtain ⟨hbefore, hlast⟩ := tameActions_append.mp htame
  have hstart := onLines_start hfiles hpaths hdesktop hsettings
  have hw : session.workspace.OnLines := onLines_actAll rfl hstart hbefore
  have hexecutions := onLines_executions hregistry hw hlast.1
  refine ⟨fun text htext => ?_, fun execution hmem => (hexecutions execution hmem).input⟩
  obtain ⟨execution, hmem, output, houtcome, hoccurs⟩ := exists_execution_of_text htext
  exact (hexecutions execution hmem).outcome output houtcome text hoccurs

instance (session : Session) (execution : Execution) : Decidable (session.Tame execution) :=
  inferInstanceAs (Decidable (∀ command ∈ session.started? _ _, _ → ∀ word ∈ _, IsLine word))

instance (session : Session) (action : UserAction) : Decidable (session.TameAction action) :=
  match action with
  | .submit _ => inferInstanceAs (Decidable (_ ∧ ∀ execution ∈ _, session.Tame execution))
  | .historyUp | .historyDown => inferInstanceAs (Decidable True)

/-- In a session over nothing but the root, a word with a line feed is divided by the command that
shows it. -/
theorem submit_onLines_echo :
    let session := (start Builtin.registry .empty .bare {}).actAll [.submit "mkdir a"]
    let input := "echo \"x\\ny\" | head; find"
    (session.submit input).1 = [.prompt "guest@folio:~$ " input, .text "x", .text "y", .text "/a"] ∧
      ∀ text, .text text ∈ (session.submit input).1 → IsLine text := by
  intro session input
  have hempty : FileSystem.ofRecord (.folder "" []) = .ok FileSystem.empty := rfl
  have hpaths : ∀ path, (FileSystem.empty.lookup path).isSome = true → IsLine path := by
    intro path hpath
    have hindex : Base.rootOnly.index = (∅ : Std.TreeMap String Nat).insert Path.root 0 := rfl
    have hoverlay : FileSystem.empty.overlay.node? path = none := by
      simp [FileSystem.empty, Overlay.node?, Overlay.none]
    rw [FileSystem.lookup_of_base hoverlay] at hpath
    have hroot : path = Path.root := by
      by_contra hne
      have hnone : Base.rootOnly.index[path]? = none := by
        rw [hindex, getElem?_insert_string, if_neg hne, Std.TreeMap.getElem?_emptyc]
      simp [FileSystem.empty, Base.node?, Base.cell?, hnone] at hpath
    rw [hroot]
    decide
  have hdesktop : Desktop.OnLines .bare := by
    constructor <;> exact fun _ h => by cases h
  have hmap : OnLinesMap ∅ := by
    intro name value hvalue
    rw [Std.TreeMap.getElem?_emptyc] at hvalue
    cases hvalue
  have hsettings : Settings.OnLines {} := ⟨by decide, by decide, by decide, hmap, hmap⟩
  have htame : (start Builtin.registry .empty .bare {}).TameActions
      ([.submit "mkdir a"] ++ [.submit input]) := by
    refine ⟨?_, ?_, trivial⟩ <;> decide +kernel
  have hreachable : FileSystem.empty.Reachable := .start hempty "guest" 0 []
  have hlines := submit_onLines hreachable hpaths hdesktop hsettings htame
  exact ⟨by decide +kernel, hlines.1⟩

/-- **The file that is touched has a name of two lines**, and so has the text that says so. -/
theorem touch_breaks_line :
    ((start Builtin.registry .empty .bare {}).submit "touch \"a\\nb\"").1
        = [.prompt "guest@folio:~$ " "touch \"a\\nb\"", .text "a\nb: created"] ∧
      ¬ IsLine "a\nb: created" := by
  constructor
  · decide +kernel
  · decide

end Session

end PocketShell
