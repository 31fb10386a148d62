import PocketShell.Proofs.CommandLine.Chaining
import PocketShell.Proofs.Session.Running

set_option autoImplicit false

/-! # What a line leaves as it is

A part of the workspace changes only if a command that has an effect on it runs. A command runs
only if it is known, has the arguments that it requires and finds the services that it needs
(`Session.started?`); one that is refused changes nothing. With the effects of the built-in
commands this gives for each part the commands that can have changed it (`submit_changes`).

A line in error does not run at all, wherever the error is.
-/

namespace PocketShell

/-! ## Parts of a workspace -/

namespace Effect

/-- Whether two workspaces agree in the part that the effect may change. -/
def SamePart (effect : Effect) (before after : Workspace) : Prop :=
  match effect with
  | nothing => True
  | files => after.files = before.files
  | aliases => after.aliases = before.aliases
  | env => after.env = before.env
  | desktop => after.desktop = before.desktop

theorem samePart_refl (effect : Effect) (workspace : Workspace) :
    effect.SamePart workspace workspace := by
  cases effect <;> trivial

theorem SamePart.trans {effect : Effect} {a b c : Workspace} (hab : effect.SamePart a b)
    (hbc : effect.SamePart b c) : effect.SamePart a c := by
  cases effect with
  | nothing => trivial
  | files => exact Eq.trans hbc hab
  | aliases => exact Eq.trans hbc hab
  | env => exact Eq.trans hbc hab
  | desktop => exact Eq.trans hbc hab

/-- **An effect leaves the parts of all others as they are.** -/
theorem Allows.samePart {effect other : Effect} {before after : Workspace}
    (h : effect.Allows before after) (hne : effect ≠ other) : other.SamePart before after := by
  cases effect with
  | nothing =>
      obtain rfl : after = before := h
      exact other.samePart_refl after
  | files =>
      obtain ⟨operations, rfl⟩ := h
      cases other <;> trivial
  | aliases =>
      obtain ⟨aliases, rfl⟩ := h
      cases other <;> trivial
  | env =>
      obtain ⟨env, rfl⟩ := h
      cases other <;> trivial
  | desktop =>
      obtain ⟨desktop, rfl⟩ := h
      cases other <;> trivial

end Effect

/-! ## Commands that are refused -/

namespace Session

/-- The command that an invocation starts on a workspace. There is none if the name is unknown, if
arguments are missing, or if the desktop lacks a service that the command needs. -/
def started? (session : Session) (workspace : Workspace) (inv : Invocation) :
    Option (Command Handler) :=
  (session.command? inv.name).filter fun command =>
    !(command.description.requiresArgs && inv.args.isEmpty) &&
      command.description.needs.all fun need => workspace.desktop.has need

variable {session : Session}

/-- **What is refused.** -/
theorem started?_eq_none_iff {workspace : Workspace} {inv : Invocation} :
    session.started? workspace inv = none ↔
      session.command? inv.name = none ∨
        ∃ command, session.command? inv.name = some command ∧
          (command.description.requiresArgs = true ∧ inv.args = [] ∨
            ∃ need ∈ command.description.needs, workspace.desktop.has need = false) := by
  rw [started?]
  cases session.command? inv.name with
  | none => simp
  | some command =>
      rw [Option.filter_some, ite_eq_right_iff]
      have haccepted : ((!(command.description.requiresArgs && inv.args.isEmpty) &&
          command.description.needs.all fun need => workspace.desktop.has need) = true →
            some command = none) ↔
          (command.description.requiresArgs = true ∧ inv.args = [] ∨
            ∃ need ∈ command.description.needs, workspace.desktop.has need = false) := by
        simp [imp_iff_not_or]
      rw [haccepted]
      simp

/-- **A command that is known and refused** lacks arguments or a service, and the error says so. -/
theorem run_of_refused {workspace : Workspace} {inv : Invocation} {command : Command Handler}
    (hcommand : session.command? inv.name = some command)
    (h : session.started? workspace inv = none) (input : Option (List String)) :
    ∃ error, (error = .command (.usage command.description.usage) ∨
        ∃ missing, error = .desktop (.unavailable missing)) ∧
      session.run workspace input inv = (.error error, workspace) := by
  obtain ⟨_, hsame, hrefused⟩ := (started?_eq_none_iff.mp h).resolve_left (by simp [hcommand])
  obtain rfl := Option.some.inj (hcommand.symm.trans hsame)
  rw [run, hcommand]
  dsimp only
  split_ifs with hargs
  · exact ⟨_, .inl rfl, rfl⟩
  · -- the arguments are there, so it is a service that is missing
    rcases hrefused with ⟨hrequires, hempty⟩ | ⟨need, hneed, hmissing⟩
    · exact absurd (by simp [hrequires, hempty]) hargs
    · have hfound : (command.description.needs.find? fun need =>
          !workspace.desktop.has need).isSome := by
        rw [List.find?_isSome]
        exact ⟨need, hneed, by simp [hmissing]⟩
      obtain ⟨missing, hmissing⟩ := Option.isSome_iff_exists.mp hfound
      rw [hmissing]
      exact ⟨_, .inr ⟨missing, rfl⟩, rfl⟩

/-- **A command that is refused changes nothing.** -/
theorem run_of_started?_eq_none {workspace : Workspace} {inv : Invocation}
    (h : session.started? workspace inv = none) (input : Option (List String)) :
    ∃ error, session.run workspace input inv = (.error error, workspace) := by
  cases hcommand : session.command? inv.name with
  | none => exact ⟨_, run_of_command?_eq_none hcommand workspace input⟩
  | some command =>
      obtain ⟨error, -, hrun⟩ := run_of_refused hcommand h input
      exact ⟨error, hrun⟩

/-- **A command that is not refused does what it does**, with the commands and the settings of the
session around it. -/
theorem run_of_started?_eq_some {workspace : Workspace} {inv : Invocation}
    {command : Command Handler} (h : session.started? workspace inv = some command)
    (input : Option (List String)) :
    session.run workspace input inv
      = ((command.action inv).run {
          catalogue := session.registry.catalogue
          settings := session.settings
          input }).run workspace := by
  obtain ⟨hcommand, haccepted⟩ := Option.filter_eq_some_iff.mp h
  rw [Bool.and_eq_true, Bool.not_eq_true', List.all_eq_true] at haccepted
  have hnone : (command.description.needs.find? fun need => !workspace.desktop.has need) = none := by
    rw [List.find?_eq_none]
    intro need hneed
    simp [haccepted.2 need hneed]
  rw [run, hcommand]
  simp only [haccepted.1, Bool.false_eq_true, if_false, hnone]

/-! ## What a line changes -/

/-- Whether one of the named commands runs when a line is submitted. -/
def Runs (session : Session) (input : String) (names : List String) : Prop :=
  ∃ execution ∈ session.executions input,
    ∃ command, session.started? execution.before execution.command = some command ∧
      command.description.name ∈ names

instance (session : Session) (input : String) (names : List String) :
    Decidable (session.Runs input names) :=
  decidable_of_iff ((session.executions input).any fun execution =>
      (session.started? execution.before execution.command).any fun command =>
        names.contains command.description.name) <| by
    simp [Runs, Option.any_eq_true]

/-- **A part stays as it is unless a command with an effect on it runs.** -/
theorem samePart_submit (h : session.registry = Builtin.registry) (input : String)
    (effect : Effect) {names : List String}
    (hnames : ∀ name, Builtin.effectOf name = effect → name ∈ names)
    (hruns : ¬ session.Runs input names) :
    effect.SamePart session.workspace (session.submit input).2.workspace := by
  have hexecutions : ∀ execution ∈ session.executions input,
      effect.SamePart execution.before execution.after := by
    intro execution hmem
    have hrun : session.run execution.before execution.input execution.command
        = (execution.outcome, execution.after) := session.isRun_executions input execution hmem
    cases hstarted : session.started? execution.before execution.command with
    | none =>
        obtain ⟨error, hsame⟩ := run_of_started?_eq_none hstarted execution.input
        rw [hrun] at hsame
        rw [(Prod.mk.inj hsame).2]
        exact effect.samePart_refl _
    | some command =>
        have hcommand := (Option.filter_eq_some_iff.mp hstarted).1
        have hallows := allows_run h hcommand execution.before execution.input
        rw [hrun] at hallows
        refine hallows.samePart fun heffect => hruns ?_
        exact ⟨execution, hmem, command, hstarted, hnames _ heffect⟩
  have hline := (session.leads_submit input).lift effect.samePart_refl
    (fun _ _ _ => Effect.SamePart.trans) hexecutions
  refine Effect.SamePart.trans ?_ hline
  -- only the history has been written to before the commands run
  cases effect <;> trivial

/-- A line that is refused as a whole leaves all but the history. -/
theorem workspace_submit_of_executions_eq_nil {input : String}
    (h : session.executions input = []) :
    ∃ history, (session.submit input).2.workspace = { session.workspace with history } := by
  have hleads := session.leads_submit input
  rw [h] at hleads
  exact ⟨_, hleads.eq_of_nil⟩

/-- **What a submitted line changes.** The commands and the settings never change, and each part
of the workspace only if one of certain commands runs. A line changes nothing but the history if
it refers to no entry of the history, or if one of its pipelines is in error, and a command that is
refused changes nothing. -/
theorem submit_changes (h : session.registry = Builtin.registry) (input : String) :
    let after := (session.submit input).2
    after.registry = session.registry ∧ after.settings = session.settings ∧
      (after.workspace.files ≠ session.workspace.files →
        session.Runs input ["cd", "mkdir", "touch"]) ∧
      (after.workspace.aliases ≠ session.workspace.aliases →
        session.Runs input ["alias", "unalias"]) ∧
      (after.workspace.env ≠ session.workspace.env →
        session.Runs input ["export", "unset"]) ∧
      (after.workspace.desktop ≠ session.workspace.desktop →
        session.Runs input ["open", "close", "minimize", "maximize", "focus", "music", "theme",
          "sound", "lang", "notify"]) ∧
      ((∃ reference, expandHistory (Text.trim input) session.history = .error reference) →
        after.workspace = session.workspace) ∧
      (∀ line, session.recorded? input = some line →
        (∃ part ∈ CommandLine.pipelineTexts (session.expand line).toList,
          ∃ error, CommandLine.pipelineOf part = .error error) →
        ∃ history, after.workspace = { session.workspace with history }) ∧
      ∀ workspace input inv,
        (session.command? inv.name = none ∨
          ∃ command, session.command? inv.name = some command ∧
            (command.description.requiresArgs = true ∧ inv.args = [] ∨
              ∃ need ∈ command.description.needs, workspace.desktop.has need = false)) →
        ∃ error, session.run workspace input inv = (.error error, workspace) := by
  intro after
  have hpart : ∀ (effect : Effect) (names : List String),
      (∀ name, Builtin.effectOf name = effect → name ∈ names) →
      ¬ effect.SamePart session.workspace after.workspace → session.Runs input names := by
    intro effect names hnames hchanged
    by_contra hruns
    exact hchanged (samePart_submit h input effect hnames hruns)
  have hnames : ∀ name,
      (Builtin.effectOf name = .files → name ∈ ["cd", "mkdir", "touch"]) ∧
      (Builtin.effectOf name = .aliases → name ∈ ["alias", "unalias"]) ∧
      (Builtin.effectOf name = .env → name ∈ ["export", "unset"]) ∧
      (Builtin.effectOf name = .desktop → name ∈ ["open", "close", "minimize", "maximize", "focus",
        "music", "theme", "sound", "lang", "notify"]) := by
    intro name
    unfold Builtin.effectOf
    split_ifs <;> simp_all
  refine ⟨(session.submit_keeps input).1, (session.submit_keeps input).2,
    hpart .files _ fun name => (hnames name).1, hpart .aliases _ fun name => (hnames name).2.1,
    hpart .env _ fun name => (hnames name).2.2.1, hpart .desktop _ fun name => (hnames name).2.2.2,
    ?_, ?_, ?_⟩
  · rintro ⟨reference, hreference⟩
    have hnone := (session.recorded?_eq_none_iff input).mpr (Or.inr ⟨reference, hreference⟩)
    obtain ⟨rendering, hsubmit⟩ := session.submit_of_none hnone
    show (session.submit input).2.workspace = _
    rw [hsubmit]
    rfl
  · intro line hline herror
    obtain ⟨error, hparse⟩ := (CommandLine.exists_error_parse_iff _).mpr herror
    refine workspace_submit_of_executions_eq_nil ?_
    rw [executions, hline]
    simp only [hparse]
  · intro workspace input inv hrefused
    exact run_of_started?_eq_none (started?_eq_none_iff.mpr hrefused) input

/-- A pipeline that stops before its `cd`, a chain with an error in one part, and a reference to
no entry. -/
theorem submit_changes_stopped :
    let session := start Builtin.registry .empty .full {}
    (session.submit "export X=1; nope | cd /").2.workspace.files = session.workspace.files ∧
      (session.submit "export X=1; nope | cd /").2.workspace.env["X"]? = some "1" ∧
      (session.submit "mkdir a; | b").2.workspace.files = session.workspace.files ∧
      (session.submit "!7").2.workspace = session.workspace := by
  intro session
  have hregistry : session.registry = Builtin.registry := rfl
  obtain ⟨-, -, hfiles, -⟩ := submit_changes hregistry "export X=1; nope | cd /"
  obtain ⟨-, -, -, -, -, -, -, herror, -⟩ := submit_changes hregistry "mkdir a; | b"
  obtain ⟨-, -, -, -, -, -, hmissing, -⟩ := submit_changes hregistry "!7"
  refine ⟨?_, by decide +kernel, ?_, ?_⟩
  · by_contra hchanged
    exact absurd (hfiles hchanged) (by decide +kernel)
  · have hrefused : ∃ part ∈ CommandLine.pipelineTexts "mkdir a; | b".toList,
        ∃ error, CommandLine.pipelineOf part = .error error :=
      ⟨"| b".toList, by decide, .unexpectedPipe 0, rfl⟩
    have hrecorded : session.recorded? "mkdir a; | b" = some "mkdir a; | b" := by
      rw [recorded?_eq_some_iff]
      decide
    have hexpand : session.expand "mkdir a; | b" = "mkdir a; | b" := by decide +kernel
    rw [← hexpand] at hrefused
    obtain ⟨history, hhistory⟩ := herror _ hrecorded hrefused
    rw [hhistory]
  · exact hmissing ⟨.entry 7, by decide +kernel⟩

end Session

end PocketShell
