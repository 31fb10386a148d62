import PocketShell.Session
import Mathlib.Tactic

set_option autoImplicit false

/-! # The commands that run

Not all commands of a line need to run: in a pipeline the first error is the end. What does run
is recorded, one `Execution` after the other: the command, what it has found, and what it has
left. What runs are commands of the line in their order (`map_command_lineExecutions`). The records
of a line are true to the session (`isRun_lineExecutions`), each begins where the one before has
ended, and together they lead from the workspace before the line to the one after it
(`leads_runLine`). So what every execution keeps, the line keeps (`Leads.lift`).
-/

namespace PocketShell

/-- The commands of a line, in their order. -/
def Line.commands : Line → List Invocation
  | pipeline command => command.stages
  | chain segments => segments.flatMap fun segment => segment.command.stages

/-- A command that has run. -/
structure Execution where
  command : Invocation
  /-- What it has received from the command before it in the pipeline. -/
  input : Option (List String)
  /-- Whether it is the last command of its pipeline. -/
  isLast : Bool
  before : Workspace
  outcome : Except ShellError Output
  after : Workspace

/-- The executions, one after the other, lead from one workspace to another. -/
inductive Leads : Workspace → List Execution → Workspace → Prop
  | nil (workspace : Workspace) : Leads workspace [] workspace
  | cons {first last : Workspace} {execution : Execution} {rest : List Execution} :
      execution.before = first → Leads execution.after rest last →
        Leads first (execution :: rest) last

namespace Leads

variable {a b c : Workspace} {first second : List Execution}

theorem append (hab : Leads a first b) (hbc : Leads b second c) : Leads a (first ++ second) c := by
  induction hab with
  | nil => exact hbc
  | cons hbefore _ ih => exact .cons hbefore (ih hbc)

theorem eq_of_nil (h : Leads a [] b) : b = a := by
  cases h with
  | nil => rfl

/-- **What every execution keeps, all of them together keep.** -/
theorem lift {R : Workspace → Workspace → Prop} (hrefl : ∀ a, R a a)
    (htrans : ∀ a b c, R a b → R b c → R a c) (h : Leads a first b)
    (hstep : ∀ execution ∈ first, R execution.before execution.after) : R a b := by
  induction h with
  | nil workspace => exact hrefl workspace
  | cons hbefore _ ih =>
      rw [List.forall_mem_cons, hbefore] at hstep
      exact htrans _ _ _ hstep.1 (ih hstep.2)

/-- **What every execution keeps holds before and after each of them**, and at the end. -/
theorem invariant {P : Workspace → Prop} (h : Leads a first b) (ha : P a)
    (hstep : ∀ execution ∈ first, P execution.before → P execution.after) :
    (∀ execution ∈ first, P execution.before ∧ P execution.after) ∧ P b := by
  induction h with
  | nil => exact ⟨List.forall_mem_nil _, ha⟩
  | cons hbefore _ ih =>
      obtain ⟨hfirst, hrest⟩ := List.forall_mem_cons.mp hstep
      rw [← hbefore] at ha
      obtain ⟨heach, hlast⟩ := ih (hfirst ha) hrest
      exact ⟨List.forall_mem_cons.mpr ⟨⟨ha, hfirst ha⟩, heach⟩, hlast⟩

end Leads

namespace Session

/-! ## What runs in a line -/

/-- The commands of a pipeline that run. -/
def stageExecutions (session : Session) (workspace : Workspace) (input : Option (List String)) :
    List Invocation → List Execution
  | [] => []
  | inv :: rest =>
      match session.run workspace input inv with
      | (.ok output, after) =>
          { command := inv, input, isLast := rest.isEmpty, before := workspace,
            outcome := .ok output, after } ::
            session.stageExecutions after (some output.forNext) rest
      | (.error error, after) =>
          [{ command := inv, input, isLast := rest.isEmpty, before := workspace,
             outcome := .error error, after }]

/-- The commands of the pipelines of a chain that run. -/
def segmentExecutions (session : Session) (workspace : Workspace) : List Segment → List Execution
  | [] => []
  | segment :: rest =>
      session.stageExecutions workspace none segment.command.stages ++
        session.segmentExecutions (session.runPipeline workspace segment.command).2 rest

/-- The commands of a line that run. -/
def lineExecutions (session : Session) (workspace : Workspace) : Line → List Execution
  | .pipeline pipeline => session.stageExecutions workspace none pipeline.stages
  | .chain segments => session.segmentExecutions workspace segments

/-- Whether the record tells what the command does in the session. -/
def IsRun (session : Session) (execution : Execution) : Prop :=
  session.run execution.before execution.input execution.command
    = (execution.outcome, execution.after)

variable (session : Session)

/-- The commands of a pipeline run in their order, as many of them as run. -/
theorem map_command_stageExecutions (workspace : Workspace) (input : Option (List String))
    (stages : List Invocation) :
    (session.stageExecutions workspace input stages).map Execution.command <+: stages := by
  fun_induction stageExecutions session workspace input stages with
  | case1 workspace input => exact List.nil_prefix
  | case2 workspace input inv rest output after hrun ih =>
      rw [List.map_cons, List.cons_prefix_cons]
      exact ⟨rfl, ih⟩
  | case3 workspace input inv rest error after hrun =>
      rw [List.map_cons, List.cons_prefix_cons]
      exact ⟨rfl, List.nil_prefix⟩

theorem map_command_segmentExecutions (workspace : Workspace) (segments : List Segment) :
    ((session.segmentExecutions workspace segments).map Execution.command).Sublist
      (segments.flatMap fun segment => segment.command.stages) := by
  induction segments generalizing workspace with
  | nil => exact List.Sublist.slnil
  | cons segment rest ih =>
      rw [segmentExecutions, List.map_append, List.flatMap_cons]
      exact (session.map_command_stageExecutions _ _ _).sublist.append (ih _)

/-- **The commands of a line run in their order**, each at most once. -/
theorem map_command_lineExecutions (workspace : Workspace) (line : Line) :
    ((session.lineExecutions workspace line).map Execution.command).Sublist line.commands := by
  cases line with
  | pipeline pipeline => exact (session.map_command_stageExecutions _ _ _).sublist
  | chain segments => exact session.map_command_segmentExecutions _ _

theorem isRun_stageExecutions (workspace : Workspace) (input : Option (List String))
    (stages : List Invocation) :
    ∀ execution ∈ session.stageExecutions workspace input stages, session.IsRun execution := by
  fun_induction stageExecutions session workspace input stages with
  | case1 workspace input => simp
  | case2 workspace input inv rest output after hrun ih => exact List.forall_mem_cons.mpr ⟨hrun, ih⟩
  | case3 workspace input inv rest error after hrun => exact List.forall_mem_singleton.mpr hrun

theorem isRun_segmentExecutions (workspace : Workspace) (segments : List Segment) :
    ∀ execution ∈ session.segmentExecutions workspace segments, session.IsRun execution := by
  induction segments generalizing workspace with
  | nil => simp [segmentExecutions]
  | cons segment rest ih =>
      intro execution hmem
      rw [segmentExecutions, List.mem_append] at hmem
      rcases hmem with hmem | hmem
      · exact session.isRun_stageExecutions _ _ _ execution hmem
      · exact ih _ execution hmem

/-- **The records of a line are true to the session.** -/
theorem isRun_lineExecutions (workspace : Workspace) (line : Line) :
    ∀ execution ∈ session.lineExecutions workspace line, session.IsRun execution := by
  cases line with
  | pipeline pipeline => exact session.isRun_stageExecutions _ _ _
  | chain segments => exact session.isRun_segmentExecutions _ _

/-! ## From the first workspace to the last -/

/-- A single command is a pipeline of one. -/
theorem runPipeline_eq (workspace : Workspace) (pipeline : Pipeline) :
    session.runPipeline workspace pipeline
      = session.runStages workspace none pipeline.stages := by
  cases pipeline with
  | single inv => rfl
  | piped stages => rfl

theorem leads_runStages (workspace : Workspace) (input : Option (List String))
    (stages : List Invocation) :
    Leads workspace (session.stageExecutions workspace input stages)
      (session.runStages workspace input stages).2 := by
  fun_induction runStages session workspace input stages with
  | case1 workspace input => exact .nil workspace
  | case2 workspace input inv =>
      rw [stageExecutions]
      split
      · next hrun =>
          rw [hrun]
          exact .cons rfl (.nil _)
      · next hrun =>
          rw [hrun]
          exact .cons rfl (.nil _)
  | case3 workspace input inv rest _ output after hrun ih =>
      simp only [stageExecutions, hrun]
      exact .cons rfl ih
  | case4 workspace input inv rest _ error after hrun =>
      simp only [stageExecutions, hrun]
      exact .cons rfl (.nil after)

theorem leads_runSegments (workspace : Workspace) (rendering : Rendering)
    (segments : List Segment) :
    Leads workspace (session.segmentExecutions workspace segments)
      (session.runSegments workspace rendering segments).2 := by
  induction segments generalizing workspace rendering with
  | nil => exact .nil workspace
  | cons segment rest ih =>
      have hfirst := session.leads_runStages workspace none segment.command.stages
      rw [← runPipeline_eq] at hfirst
      exact hfirst.append (ih _ _)

/-- **What runs in a line leads from the workspace before it to the one after it.** -/
theorem leads_runLine (workspace : Workspace) (rendering : Rendering) (line : Line) :
    Leads workspace (session.lineExecutions workspace line)
      (session.runLine workspace rendering line).2 := by
  cases line with
  | pipeline pipeline =>
      have h := session.leads_runStages workspace none pipeline.stages
      rw [← runPipeline_eq] at h
      exact h
  | chain segments => exact session.leads_runSegments workspace rendering segments

end Session

end PocketShell
