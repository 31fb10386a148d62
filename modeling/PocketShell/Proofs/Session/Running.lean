import PocketShell.Proofs.Session.Execution
import PocketShell.Proofs.Shell.Builtin
import PocketShell.Proofs.Shell.Registry

set_option autoImplicit false

/-! # What a session does to its workspace

In a session with the built-in commands each command has the effect that its name tells
(`Session.allows_run`). None of them writes to the history, and the files change only by operations
on files (`Workspace.Follows`). What each command keeps, a line keeps, whatever it is made of.

A submitted line is either refused, and then nothing runs, or it is written to the history and its
commands run (`Session.executions`). A user submits lines and walks through the history in any
order (`Session.actAll`).
-/

namespace PocketShell

namespace Session

variable {session : Session}

/-! ## The built-in commands -/

/-- A command that a name leads to is one of those that were registered. -/
theorem mem_commands_of_command? (h : session.registry = Builtin.registry) {name : String}
    {command : Command Handler} (hcommand : session.command? name = some command) :
    command ∈ Builtin.commands := by
  have hregistry := Registry.consistent_registerAll Builtin.commands
  obtain ⟨entry, hentry, rfl⟩ := Option.map_eq_some_iff.mp hcommand
  rw [h, Builtin.registry, Option.orElse_eq_orElse, Option.orElse_eq_or] at hentry
  rcases Option.or_eq_some_iff.mp hentry with hentry | ⟨-, hentry⟩
  · exact hregistry.mem_of_find? hentry
  · exact hregistry.mem_of_find? hentry

/-- Each built-in command is found by its name. -/
theorem command?_of_mem (h : session.registry = Builtin.registry) {command : Command Handler}
    (hmem : command ∈ Builtin.commands) :
    session.command? command.description.name = some command := by
  have hregistry := Registry.consistent_registerAll Builtin.commands
  obtain ⟨entry, hentry, rfl⟩ := hregistry.find?_of_nodup Builtin.nodup_names hmem
  have hfind : session.registry.find? entry.command.description.name = some entry := by
    rw [h]
    exact hentry
  rw [command?, hfind]
  rfl

/-- **A command that runs has the effect that its name tells**, also when it is refused or
fails. -/
theorem allows_run (h : session.registry = Builtin.registry) {inv : Invocation}
    {command : Command Handler} (hcommand : session.command? inv.name = some command)
    (workspace : Workspace) (input : Option (List String)) :
    (Builtin.effectOf command.description.name).Allows workspace
      (session.run workspace input inv).2 := by
  have heffect := Builtin.commands_effect (mem_commands_of_command? h hcommand)
  rw [run, hcommand]
  dsimp only
  -- refused for its arguments or for a service that it needs, the command does not run
  split_ifs with hargs
  · exact Effect.allows_refl _ workspace
  · split
    · exact Effect.allows_refl _ workspace
    · exact heffect inv workspace _

/-- An unknown command changes nothing. -/
theorem run_of_command?_eq_none {inv : Invocation} (h : session.command? inv.name = none)
    (workspace : Workspace) (input : Option (List String)) :
    session.run workspace input inv = (.error (.unknownCommand inv.name), workspace) := by
  rw [run, h]

end Session

/-! ## What no built-in command does -/

/-- **What the commands of a line may leave of a workspace**: the history as it was, and files
that operations on files have changed. -/
structure Workspace.Follows (before after : Workspace) : Prop where
  history_eq : after.history = before.history
  files_eq : ∃ operations, after.files = (before.files.run operations).2

theorem Workspace.follows_refl (workspace : Workspace) : workspace.Follows workspace :=
  ⟨rfl, [], rfl⟩

theorem Workspace.Follows.trans {a b c : Workspace} (hab : a.Follows b) (hbc : b.Follows c) :
    a.Follows c := by
  obtain ⟨first, hfirst⟩ := hab.files_eq
  obtain ⟨second, hsecond⟩ := hbc.files_eq
  refine ⟨hbc.history_eq.trans hab.history_eq, first ++ second, ?_⟩
  rw [FileSystem.run_append, ← hfirst, hsecond]

theorem Effect.Allows.follows {effect : Effect} {before after : Workspace}
    (h : effect.Allows before after) : before.Follows after := by
  cases effect with
  | nothing =>
      obtain rfl : after = before := h
      exact after.follows_refl
  | files =>
      obtain ⟨operations, rfl⟩ := h
      exact ⟨rfl, operations, rfl⟩
  | aliases =>
      obtain ⟨aliases, rfl⟩ := h
      exact ⟨rfl, [], rfl⟩
  | env =>
      obtain ⟨env, rfl⟩ := h
      exact ⟨rfl, [], rfl⟩
  | desktop =>
      obtain ⟨desktop, rfl⟩ := h
      exact ⟨rfl, [], rfl⟩

namespace Session

variable {session : Session}

theorem follows_run (h : session.registry = Builtin.registry) (workspace : Workspace)
    (input : Option (List String)) (inv : Invocation) :
    workspace.Follows (session.run workspace input inv).2 := by
  cases hcommand : session.command? inv.name with
  | none =>
      rw [run_of_command?_eq_none hcommand]
      exact workspace.follows_refl
  | some command => exact (allows_run h hcommand workspace input).follows

theorem follows_runLine (session : Session) (h : session.registry = Builtin.registry)
    (workspace : Workspace) (rendering : Rendering) (line : Line) :
    workspace.Follows (session.runLine workspace rendering line).2 := by
  refine (session.leads_runLine workspace rendering line).lift Workspace.follows_refl
    (fun _ _ _ => Workspace.Follows.trans) ?_
  intro execution hmem
  have hstep := follows_run h execution.before execution.input execution.command
  rw [session.isRun_lineExecutions workspace line execution hmem] at hstep
  exact hstep

/-! ## Submitting a line -/

/-- The line that submitting `input` writes to the history, if any: none for a line of white
space or a reference that leads nowhere. -/
def recorded? (session : Session) (input : String) : Option String :=
  if Text.trim input = "" then none
  else (expandHistory (Text.trim input) session.history).toOption

variable (session)

theorem recorded?_eq_none_iff (input : String) :
    session.recorded? input = none ↔ Text.trim input = "" ∨
      ∃ reference, expandHistory (Text.trim input) session.history = .error reference := by
  rw [recorded?]
  split_ifs with hblank
  · exact iff_of_true rfl (.inl hblank)
  · cases expandHistory (Text.trim input) session.history with
    | error reference => exact iff_of_true rfl (.inr ⟨reference, rfl⟩)
    | ok line => simp [Except.toOption, hblank]

theorem recorded?_eq_some_iff (input line : String) :
    session.recorded? input = some line ↔
      Text.trim input ≠ "" ∧ expandHistory (Text.trim input) session.history = .ok line := by
  rw [recorded?]
  split_ifs with hblank
  · simp [hblank]
  · cases expandHistory (Text.trim input) session.history with
    | error reference => simp [Except.toOption]
    | ok entry => simp [Except.toOption, hblank]

/-- White space renders a bare prompt. -/
theorem submit_of_blank {input : String} (h : Text.trim input = "") :
    session.submit input
      = { session with cursor := none }.finish { lines := [.prompt session.prompt ""] } := by
  simp only [submit, if_pos h]
  rfl

/-- A reference that leads nowhere renders an error. -/
theorem submit_of_missing {input : String} (hblank : Text.trim input ≠ "")
    {reference : EventReference}
    (h : expandHistory (Text.trim input) session.history = .error reference) :
    session.submit input = { session with cursor := none }.finish
      { lines := [.prompt session.prompt (Text.trim input),
          .error (CommandError.noEvent reference).message] } := by
  have hexpand : expandHistory (Text.trim input) (history { session with cursor := none })
      = .error reference := h
  simp only [submit, if_neg hblank]
  rw [hexpand]
  rfl

/-- Without an entry nothing runs: a prompt is rendered, perhaps with an error. -/
theorem submit_of_none {input : String} (h : session.recorded? input = none) :
    ∃ rendering, session.submit input = { session with cursor := none }.finish rendering := by
  by_cases hblank : Text.trim input = ""
  · exact ⟨_, session.submit_of_blank hblank⟩
  · obtain ⟨reference, hreference⟩ :=
      ((session.recorded?_eq_none_iff input).mp h).resolve_left hblank
    exact ⟨_, session.submit_of_missing hblank hreference⟩

/-- **Submitting a line is entering the line that it records.** -/
theorem submit_of_some {input line : String} (h : session.recorded? input = some line) :
    session.submit input = { session with cursor := none }.enter line := by
  obtain ⟨hblank, hline⟩ := (session.recorded?_eq_some_iff input line).mp h
  have hexpand : expandHistory (Text.trim input) (history { session with cursor := none })
      = .ok line := hline
  simp only [submit, if_neg hblank]
  rw [hexpand]

/-- A line that is none of commands is written to the history and renders an error. -/
theorem enter_of_error {line : String} {error : LineError}
    (h : CommandLine.parse (session.expand line) = .error error) :
    session.enter line = (session.record line).finish
      (Rendering.add { lines := [.prompt session.prompt line] } (.error (.line error))) := by
  have hparse : CommandLine.parse ((session.record line).expand line) = .error error := h
  rw [enter]
  dsimp only
  rw [hparse]

/-- A line of commands is written to the history, and the commands run. -/
theorem enter_of_ok {line : String} {commands : Line}
    (h : CommandLine.parse (session.expand line) = .ok commands) :
    session.enter line
      = let run := (session.record line).runLine (session.record line).workspace
          { lines := [.prompt session.prompt line] } commands
        { session.record line with workspace := run.2 }.finish run.1 := by
  have hparse : CommandLine.parse ((session.record line).expand line) = .ok commands := h
  rw [enter]
  dsimp only
  rw [hparse]

/-- Entering a line changes the workspace, the scrollback and nothing else. -/
theorem enter_eq (line : String) : ∃ workspace scrollback,
    (session.enter line).2 = { session with workspace, scrollback } := by
  cases h : CommandLine.parse (session.expand line) with
  | error error =>
      rw [session.enter_of_error h]
      exact ⟨_, _, rfl⟩
  | ok commands =>
      rw [session.enter_of_ok h]
      exact ⟨_, _, rfl⟩

/-- **Submitting a line changes neither the commands nor the settings.** -/
theorem submit_keeps (input : String) :
    (session.submit input).2.registry = session.registry ∧
      (session.submit input).2.settings = session.settings := by
  cases h : session.recorded? input with
  | none =>
      obtain ⟨rendering, hsubmit⟩ := session.submit_of_none h
      rw [hsubmit]
      exact ⟨rfl, rfl⟩
  | some line =>
      obtain ⟨workspace, scrollback, henter⟩ := enter_eq { session with cursor := none } line
      rw [session.submit_of_some h, henter]
      exact ⟨rfl, rfl⟩

/-- **The line is written to the history first, and then its commands run.** -/
theorem follows_enter (h : session.registry = Builtin.registry) (line : String) :
    (session.record line).workspace.Follows (session.enter line).2.workspace := by
  cases hparse : CommandLine.parse (session.expand line) with
  | error error =>
      rw [session.enter_of_error hparse]
      exact Workspace.follows_refl _
  | ok commands =>
      rw [session.enter_of_ok hparse]
      exact follows_runLine (session.record line) h _ _ commands

theorem history_submit (h : session.registry = Builtin.registry) (input : String) :
    (session.submit input).2.history = session.history ++ (session.recorded? input).toList := by
  cases hline : session.recorded? input with
  | none =>
      obtain ⟨rendering, hsubmit⟩ := session.submit_of_none hline
      rw [hsubmit]
      exact (List.append_nil _).symm
  | some line =>
      rw [session.submit_of_some hline]
      exact (follows_enter { session with cursor := none } h line).history_eq

end Session

/-! ## What runs for a submitted line -/

namespace Session

/-- Why a submitted line does not run, if it does not and is not just white space. -/
def failure? (session : Session) (input : String) : Option ShellError :=
  if Text.trim input = "" then none
  else
    match expandHistory (Text.trim input) session.history with
    | .error reference => some (.command (.noEvent reference))
    | .ok line =>
        match CommandLine.parse (session.expand line) with
        | .error error => some (.line error)
        | .ok _ => none

/-- The commands that run for a submitted line. They find the line in the history. -/
def executions (session : Session) (input : String) : List Execution :=
  match session.recorded? input with
  | none => []
  | some line =>
      match CommandLine.parse (session.expand line) with
      | .error _ => []
      | .ok commands =>
          let entered := { session with cursor := none }.record line
          entered.lineExecutions entered.workspace commands

variable (session : Session)

/-- **The commands that run for a line are commands of the line in their order.** -/
theorem map_command_executions {input line : String} {commands : Line}
    (hline : session.recorded? input = some line)
    (hparse : CommandLine.parse (session.expand line) = .ok commands) :
    ((session.executions input).map Execution.command).Sublist commands.commands := by
  rw [executions, hline]
  simp only [hparse]
  exact map_command_lineExecutions _ _ commands

theorem isRun_executions (input : String) :
    ∀ execution ∈ session.executions input, session.IsRun execution := by
  intro execution hmem
  unfold executions at hmem
  split at hmem
  · cases hmem
  · split at hmem
    · cases hmem
    · have hrun := isRun_lineExecutions _ _ _ execution hmem
      exact hrun

/-- **What runs for a line leads to the workspace that the line leaves.** It begins in the
workspace before the line, with the line in the history if it is written there. -/
theorem leads_submit (input : String) :
    Leads { session.workspace with history := session.history ++ (session.recorded? input).toList }
      (session.executions input) (session.submit input).2.workspace := by
  unfold executions
  cases hline : session.recorded? input with
  | none =>
      obtain ⟨rendering, hsubmit⟩ := session.submit_of_none hline
      rw [hsubmit, Option.toList_none, List.append_nil]
      exact .nil session.workspace
  | some line =>
      rw [session.submit_of_some hline]
      dsimp only
      split
      · next error hparse =>
          rw [enter_of_error { session with cursor := none } hparse]
          exact .nil _
      · next commands hparse =>
          rw [enter_of_ok { session with cursor := none } hparse]
          exact leads_runLine _ _ _ _

end Session

/-! ## What a user does -/

/-- What a user does at a session. -/
inductive UserAction where
  | submit (input : String)
  | historyUp
  | historyDown
deriving DecidableEq, Repr

namespace Session

/-- The session after something that a user does. -/
def act (session : Session) : UserAction → Session
  | .submit input => (session.submit input).2
  | .historyUp => session.historyUp.2
  | .historyDown => session.historyDown.2

/-- The session after all that a user does, in this order. -/
def actAll (session : Session) (actions : List UserAction) : Session := actions.foldl act session

variable (session : Session)

/-- Walking through the history moves the cursor and nothing else. -/
theorem historyUp_eq : ∃ cursor, session.historyUp.2 = { session with cursor } := by
  unfold historyUp
  split_ifs
  · exact ⟨session.cursor, rfl⟩
  · exact ⟨_, rfl⟩

theorem historyDown_eq : ∃ cursor, session.historyDown.2 = { session with cursor } := by
  unfold historyDown
  split_ifs
  · exact ⟨session.cursor, rfl⟩
  · split
    · exact ⟨session.cursor, rfl⟩
    · split_ifs
      · exact ⟨_, rfl⟩
      · exact ⟨_, rfl⟩

theorem registry_act (action : UserAction) : (session.act action).registry = session.registry := by
  cases action with
  | submit input => exact (session.submit_keeps input).1
  | historyUp =>
      obtain ⟨cursor, h⟩ := session.historyUp_eq
      rw [act, h]
  | historyDown =>
      obtain ⟨cursor, h⟩ := session.historyDown_eq
      rw [act, h]

theorem registry_actAll (actions : List UserAction) :
    (session.actAll actions).registry = session.registry := by
  induction actions generalizing session with
  | nil => rfl
  | cons action rest ih => exact (ih (session.act action)).trans (session.registry_act action)

/-- **A property of sessions with the built-in commands that each action keeps holds of all
that comes after.** -/
theorem actAll_induction {P : Session → Prop}
    (hstep : ∀ session : Session, session.registry = Builtin.registry → P session →
      ∀ action, P (session.act action))
    (h : session.registry = Builtin.registry) (hP : P session) (actions : List UserAction) :
    P (session.actAll actions) := by
  induction actions generalizing session with
  | nil => exact hP
  | cons action rest ih =>
      exact ih (session.act action) ((session.registry_act action).trans h)
        (hstep session h hP action)

end Session

end PocketShell
