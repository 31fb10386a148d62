import PocketShell.Proofs.Session.Running

set_option autoImplicit false

/-! # The scrollback as a stream of events

A session could show everything at once: the prompt when a line is submitted, the lines of each
command when it has run, and a cleared screen as soon as a command clears it. This gives a stream
of events (`Session.events`), which is replayed by showing one line after the other and by erasing
all lines at each clearing (`replay`).

A session does otherwise. It collects what a line renders, with a mark whether the screen has been
cleared, and brings the scrollback up to date when the line is done. The collection agrees with the
replay of the events so far (`Rendering.Collects`), each command keeps the agreement
(`Rendering.Collects.add`), and so the scrollback is the replay of the stream at the end of each line
(`scrollback_eq_replay`).
-/

namespace PocketShell

/-! ## Events -/

/-- What happens on the screen. -/
inductive ScreenEvent where
  | shown (line : OutputLine)
  | cleared
deriving DecidableEq, Repr

/-- What a screen shows after some events. -/
def replay (screen : List OutputLine) : List ScreenEvent → List OutputLine
  | [] => screen
  | .shown line :: rest => replay (screen ++ [line]) rest
  | .cleared :: rest => replay [] rest

/-- The lines after which the screen is not cleared any more. -/
def sinceCleared : List ScreenEvent → List OutputLine
  | [] => []
  | .shown line :: rest =>
      if .cleared ∈ rest then sinceCleared rest else line :: sinceCleared rest
  | .cleared :: rest => sinceCleared rest

theorem replay_append (screen : List OutputLine) (first second : List ScreenEvent) :
    replay screen (first ++ second) = replay (replay screen first) second := by
  induction first generalizing screen with
  | nil => rfl
  | cons event first ih =>
      cases event with
      | shown line => exact ih (screen ++ [line])
      | cleared => exact ih []

theorem replay_shown (screen lines : List OutputLine) :
    replay screen (lines.map .shown) = screen ++ lines := by
  induction lines generalizing screen with
  | nil => exact (List.append_nil screen).symm
  | cons line lines ih =>
      rw [List.map_cons, replay, ih, List.append_assoc]
      rfl

/-- **A replay keeps what was on the screen unless it is cleared**, and adds the lines since. -/
theorem replay_eq (screen : List OutputLine) (events : List ScreenEvent) :
    replay screen events
      = (if .cleared ∈ events then [] else screen) ++ sinceCleared events := by
  induction events generalizing screen with
  | nil => simp [replay, sinceCleared]
  | cons event rest ih =>
      cases event with
      | shown line =>
          rw [replay, ih, sinceCleared]
          by_cases hcleared : .cleared ∈ rest
          · simp [hcleared]
          · simp [hcleared]
      | cleared =>
          rw [replay, ih, sinceCleared, if_pos List.mem_cons_self, ite_self]

theorem replay_nil_left (events : List ScreenEvent) : replay [] events = sinceCleared events := by
  rw [replay_eq, ite_self, List.nil_append]

/-! ## The events of a command -/

/-- What happens when a command has ended and its output goes to the screen. -/
def resultEvents : Except ShellError Output → List ScreenEvent
  | .ok (.lines texts) => texts.map fun text => .shown (.text text)
  | .ok .nothing => []
  | .ok .clear => [.cleared]
  | .error error => [.shown (.error error.message)]

/-- What happens on the screen when a command runs in a pipeline. An error is shown at once; an
output goes to the next command, and that of the last command to the screen. -/
def Execution.events (execution : Execution) : List ScreenEvent :=
  match execution.outcome with
  | .ok output => if execution.isLast then resultEvents (.ok output) else []
  | .error error => resultEvents (.error error)

/-- **The invariant of a line.** What has been rendered is what the events so far show, and it is
marked whether the screen has been cleared. -/
structure Rendering.Collects (rendering : Rendering) (events : List ScreenEvent) : Prop where
  lines_eq : rendering.lines = sinceCleared events
  cleared_iff : rendering.cleared = true ↔ .cleared ∈ events

namespace Rendering

variable {rendering : Rendering} {events : List ScreenEvent}

/-- Lines that are rendered without a clearing. -/
theorem collects_shown (lines : List OutputLine) :
    Collects { lines } (lines.map .shown) := by
  constructor
  · rw [← replay_nil_left, replay_shown, List.nil_append]
  · simp

/-- More lines at the end. -/
theorem Collects.append (h : rendering.Collects events) (lines : List OutputLine) :
    Collects { rendering with lines := rendering.lines ++ lines }
      (events ++ lines.map .shown) := by
  constructor
  · rw [← replay_nil_left, replay_append, replay_shown, replay_nil_left, ← h.lines_eq]
  · simp [h.cleared_iff]

/-- **The result of a command keeps the agreement.** -/
theorem Collects.add (h : rendering.Collects events) (result : Except ShellError Output) :
    (rendering.add result).Collects (events ++ resultEvents result) := by
  cases result with
  | error error => exact h.append [.error error.message]
  | ok output =>
      cases output with
      | lines texts =>
          have hlines := h.append (texts.map .text)
          rw [List.map_map] at hlines
          exact hlines
      | nothing =>
          rw [resultEvents, List.append_nil]
          exact h
      | clear =>
          constructor
          · rw [resultEvents, ← replay_nil_left, replay_append]
            rfl
          · simp [Rendering.add, resultEvents]

end Rendering

/-! ## The events of a line -/

namespace Session

variable (session : Session)

/-- **A pipeline shows what comes out at its end.** -/
theorem events_stageExecutions (workspace : Workspace) (input : Option (List String))
    (stages : List Invocation) :
    (session.stageExecutions workspace input stages).flatMap Execution.events
      = resultEvents (session.runStages workspace input stages).1 := by
  fun_induction runStages session workspace input stages with
  | case1 workspace input => rfl
  | case2 workspace input inv =>
      rw [stageExecutions]
      split
      · next hrun =>
          rw [hrun]
          exact List.append_nil _
      · next hrun =>
          rw [hrun]
          exact List.append_nil _
  | case3 workspace input inv rest hrest output after hrun ih =>
      -- the output of a command that is not the last one stays in the pipeline
      have hnot : rest.isEmpty = false := by
        cases rest with
        | nil => exact absurd rfl hrest
        | cons _ _ => rfl
      simp only [stageExecutions, hrun, List.flatMap_cons]
      rw [ih]
      simp [Execution.events, hnot]
  | case4 workspace input inv rest _ error after hrun =>
      simp only [stageExecutions, hrun]
      exact List.append_nil _

theorem collects_runSegments {rendering : Rendering} {events : List ScreenEvent}
    (h : rendering.Collects events) (workspace : Workspace) (segments : List Segment) :
    (session.runSegments workspace rendering segments).1.Collects
      (events ++ (session.segmentExecutions workspace segments).flatMap Execution.events) := by
  induction segments generalizing rendering events workspace with
  | nil =>
      rw [segmentExecutions, List.flatMap_nil, List.append_nil]
      exact h
  | cons segment rest ih =>
      rw [segmentExecutions, List.flatMap_append, events_stageExecutions, ← runPipeline_eq,
        ← List.append_assoc]
      exact ih (h.add _) _

/-- **The commands of a line keep the agreement.** -/
theorem collects_runLine {rendering : Rendering} {events : List ScreenEvent}
    (h : rendering.Collects events) (workspace : Workspace) (line : Line) :
    (session.runLine workspace rendering line).1.Collects
      (events ++ (session.lineExecutions workspace line).flatMap Execution.events) := by
  cases line with
  | pipeline pipeline =>
      rw [lineExecutions, events_stageExecutions, ← runPipeline_eq]
      exact h.add _
  | chain segments => exact session.collects_runSegments h workspace segments

/-- What happens on the screen when a line is submitted: its prompt with the line as it is entered,
an error if the line does not run, and what its commands show, one after the other. -/
def events (session : Session) (input : String) : List ScreenEvent :=
  .shown (.prompt session.prompt ((session.recorded? input).getD (Text.trim input))) ::
    ((session.failure? input).toList.map fun error => .shown (.error error.message)) ++
      (session.executions input).flatMap Execution.events

/-- **What is kept of a line is the replay of its events.** -/
theorem finish_of_collects {rendering : Rendering} {events : List ScreenEvent}
    (h : rendering.Collects events) :
    (session.finish rendering).1 = sinceCleared events ∧
      (session.finish rendering).2.scrollback = replay session.scrollback events := by
  constructor
  · exact h.lines_eq
  · rw [replay_eq, ← h.lines_eq]
    show (if rendering.cleared = true then [] else session.scrollback) ++ _ = _
    by_cases hcleared : rendering.cleared = true
    · rw [if_pos hcleared, if_pos (h.cleared_iff.mp hcleared)]
    · rw [if_neg hcleared, if_neg (mt h.cleared_iff.mpr hcleared)]

/-- **A submitted line** renders what its events show since the last clearing, and replays its
events on the scrollback. -/
theorem submit_of_events (input : String) :
    (session.submit input).1 = sinceCleared (session.events input) ∧
      (session.submit input).2.scrollback
        = replay session.scrollback (session.events input) := by
  by_cases hblank : Text.trim input = ""
  · have hnone := (session.recorded?_eq_none_iff input).mpr (Or.inl hblank)
    have hevents : session.events input = [.shown (.prompt session.prompt "")] := by
      rw [events, failure?, executions, hnone, if_pos hblank, hblank]
      rfl
    rw [session.submit_of_blank hblank, hevents]
    exact finish_of_collects _ (Rendering.collects_shown [.prompt session.prompt ""])
  cases hexpand : expandHistory (Text.trim input) session.history with
  | error reference =>
      have hnone := (session.recorded?_eq_none_iff input).mpr (Or.inr ⟨reference, hexpand⟩)
      have hevents : session.events input
          = [.shown (.prompt session.prompt (Text.trim input)),
              .shown (.error (CommandError.noEvent reference).message)] := by
        rw [events, failure?, executions, hnone, if_neg hblank, hexpand]
        rfl
      rw [session.submit_of_missing hblank hexpand, hevents]
      exact finish_of_collects _ (Rendering.collects_shown
        [.prompt session.prompt (Text.trim input), .error (CommandError.noEvent reference).message])
  | ok line =>
      have hline := (session.recorded?_eq_some_iff input line).mpr ⟨hblank, hexpand⟩
      have hprompt := Rendering.collects_shown [.prompt session.prompt line]
      rw [session.submit_of_some hline]
      cases hparse : CommandLine.parse (session.expand line) with
      | error error =>
          have hevents : session.events input
              = [.shown (.prompt session.prompt line)] ++ resultEvents (.error (.line error)) := by
            rw [events, failure?, executions, hline, if_neg hblank, hexpand]
            simp only [hparse]
            rfl
          rw [enter_of_error { session with cursor := none } hparse, hevents]
          exact finish_of_collects _ (hprompt.add _)
      | ok commands =>
          let entered := { session with cursor := none }.record line
          have hevents : session.events input
              = [.shown (.prompt session.prompt line)]
                ++ (entered.lineExecutions entered.workspace commands).flatMap Execution.events := by
            rw [events, failure?, executions, hline, if_neg hblank, hexpand]
            simp only [hparse]
            rfl
          rw [enter_of_ok { session with cursor := none } hparse, hevents]
          exact finish_of_collects _ (entered.collects_runLine hprompt entered.workspace commands)

/-! ## The events of a session -/

/-- What happens on the screen while a user acts. Only lines that are submitted show anything. -/
def eventStream (session : Session) : List UserAction → List ScreenEvent
  | [] => []
  | .submit input :: rest => session.events input ++ eventStream (session.act (.submit input)) rest
  | action :: rest => eventStream (session.act action) rest

theorem scrollback_actAll (actions : List UserAction) :
    (session.actAll actions).scrollback = replay session.scrollback (session.eventStream actions) := by
  induction actions generalizing session with
  | nil => rfl
  | cons action rest ih =>
      have hrest : (session.actAll (action :: rest)).scrollback
          = replay (session.act action).scrollback ((session.act action).eventStream rest) :=
        ih (session.act action)
      rw [hrest]
      cases action with
      | submit input =>
          rw [eventStream, replay_append, ← (session.submit_of_events input).2]
          rfl
      | historyUp =>
          obtain ⟨cursor, hup⟩ := session.historyUp_eq
          simp only [eventStream, act, hup]
      | historyDown =>
          obtain ⟨cursor, hdown⟩ := session.historyDown_eq
          simp only [eventStream, act, hdown]

/-- **The scrollback is the replay of what has happened on the screen**, whatever commands the
session has, whatever it has been through, and whatever its user does. Each submitted line renders
what it has shown since it has cleared the screen for the last time. The commands that show it are
those that run: commands of the line in their order, each in the workspace that the one before has
left. -/
theorem scrollback_eq_replay (actions : List UserAction) :
    let later := session.actAll actions
    later.scrollback = replay session.scrollback (session.eventStream actions) ∧
      ∀ input, (later.submit input).1 = sinceCleared (later.events input) ∧
        (∀ line commands, later.recorded? input = some line →
          CommandLine.parse (later.expand line) = .ok commands →
            ((later.executions input).map Execution.command).Sublist commands.commands) ∧
        (∀ execution ∈ later.executions input, later.IsRun execution) ∧
        Leads { later.workspace with history := later.history ++ (later.recorded? input).toList }
          (later.executions input) (later.submit input).2.workspace := by
  intro later
  refine ⟨session.scrollback_actAll actions, fun input => ⟨?_, ?_, ?_, later.leads_submit input⟩⟩
  · exact (later.submit_of_events input).1
  · intro line commands hline hparse
    exact later.map_command_executions hline hparse
  · exact later.isRun_executions input

end Session

end PocketShell
