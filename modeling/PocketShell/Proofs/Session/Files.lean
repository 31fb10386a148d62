import PocketShell.Proofs.FileSystem.Persistence
import PocketShell.Proofs.Session.Running

set_option autoImplicit false

/-! # The files of a session

Whatever a user submits, the files of a session change by a run of operations on files
(`Session.exists_run_actAll`). So what holds of every run of operations holds of every session: what
exists stays, all directories gone through are folders, and listing the working directory and
going back never fail.
-/

namespace PocketShell

namespace FileSystem.Navigable

variable {workspace : Workspace} {inv : Invocation}

/-- The command that lists, given no path, lists the working directory. -/
theorem ls (h : workspace.files.Navigable) (hargs : inv.args = []) (surroundings : Surroundings) :
    ∃ lines, ((Builtin.ls.action inv).run surroundings).run workspace
      = (.ok (.lines lines), workspace) := by
  obtain ⟨entries, hlist⟩ := h.list_cwd {
    all := inv.hasAnyFlag ["a", "all"]
    long := inv.hasFlag "l"
    human := inv.hasAnyFlag ["h", "human-readable"] }
  refine ⟨entries.map Builtin.entryLine, ?_⟩
  simp only [Builtin.ls, Builtin.listLines]
  rw [hargs]
  dsimp only
  rw [ShellM.run_bind, ShellM.run_bind, ShellM.run_askFiles_of_ok hlist]
  rfl

/-- The command that changes the directory, given `-`, goes back. -/
theorem cd_back (h : workspace.files.Navigable) (hargs : inv.arg? 0 = some "-")
    (surroundings : Surroundings) :
    ((Builtin.cd.action inv).run surroundings).run workspace
      = (.ok .nothing, { workspace with files := (workspace.files.changeDirectory "-").2 }) := by
  simp only [Builtin.cd, hargs, Option.getD_some]
  rw [ShellM.run_bind, ShellM.run_onFiles_of_ok h.back]
  rfl
end FileSystem.Navigable

namespace Session

variable (session : Session)

/-- **What a user does changes the files by operations on files.** -/
theorem exists_run_act (h : session.registry = Builtin.registry) (action : UserAction) :
    ∃ operations, (session.act action).workspace.files
      = (session.workspace.files.run operations).2 := by
  cases action with
  | submit input =>
      cases hline : session.recorded? input with
      | none =>
          obtain ⟨rendering, hsubmit⟩ := session.submit_of_none hline
          refine ⟨[], ?_⟩
          rw [act, hsubmit]
          rfl
      | some line =>
          obtain ⟨operations, hfiles⟩ :=
            (follows_enter { session with cursor := none } h line).files_eq
          refine ⟨operations, ?_⟩
          rw [act, session.submit_of_some hline, hfiles]
          rfl
  | historyUp =>
      obtain ⟨cursor, hup⟩ := session.historyUp_eq
      refine ⟨[], ?_⟩
      rw [act, hup]
      rfl
  | historyDown =>
      obtain ⟨cursor, hdown⟩ := session.historyDown_eq
      refine ⟨[], ?_⟩
      rw [act, hdown]
      rfl

theorem exists_run_actAll (h : session.registry = Builtin.registry) (actions : List UserAction) :
    ∃ operations, (session.actAll actions).workspace.files
      = (session.workspace.files.run operations).2 := by
  refine session.actAll_induction
    (P := fun later => ∃ operations, later.workspace.files
      = (session.workspace.files.run operations).2) ?_ h ⟨[], rfl⟩ actions
  intro later hlater ⟨first, hfirst⟩ action
  obtain ⟨second, hsecond⟩ := exists_run_act later hlater action
  refine ⟨first ++ second, ?_⟩
  rw [hsecond, hfirst, FileSystem.run_append]

end Session

namespace FileSystem

/-- **What exists stays, and the way back stays open**, in every run of operations from a state of
a file system, and in every session that begins with one. The directories gone through are those
that the answers tell. -/
theorem reachable_persistent {fs : FileSystem} (h : fs.Reachable) :
    (∀ operations, let later := fs.run operations
      fs.Keeps later.2 ∧ later.2.Navigable ∧
        later.2.directories = DirectoryStack.afterAll fs.directories operations later.1) ∧
    ∀ desktop settings actions,
      let session := (Session.start Builtin.registry fs desktop settings).actAll actions
      fs.Keeps session.workspace.files ∧ session.workspace.files.Navigable ∧
        (∀ later, session.workspace.files.Keeps (session.actAll later).workspace.files) ∧
        ∀ inv surroundings,
          (inv.args = [] → ∃ lines,
            ((Builtin.ls.action inv).run surroundings).run session.workspace
              = (.ok (.lines lines), session.workspace)) ∧
          (inv.arg? 0 = some "-" →
            ((Builtin.cd.action inv).run surroundings).run session.workspace
              = (.ok .nothing, { session.workspace with
                  files := (session.workspace.files.changeDirectory "-").2 })) := by
  have hsound := h.sound
  refine ⟨fun operations => ⟨?_, ?_, ?_⟩, ?_⟩
  · exact (hsound.wellFormed.grows_run operations).keeps
  · exact (hsound.run operations).navigable
  · exact fs.directories_run operations
  · intro desktop settings actions session
    have hstart := hsound.withOwner settings.owner
    have hregistry : session.registry = Builtin.registry := Session.registry_actAll _ actions
    obtain ⟨operations, hfiles⟩ := Session.exists_run_actAll
      (Session.start Builtin.registry fs desktop settings) rfl actions
    have hsession : session.workspace.files.Sound := by
      rw [hfiles]
      exact hstart.run operations
    refine ⟨?_, hsession.navigable, ?_, ?_⟩
    · rw [hfiles]
      exact (hstart.wellFormed.grows_run operations).keeps
    · intro later
      obtain ⟨operations, hlater⟩ := session.exists_run_actAll hregistry later
      rw [hlater]
      exact (hsession.wellFormed.grows_run operations).keeps
    · intro inv surroundings
      exact ⟨fun hargs => hsession.navigable.ls hargs surroundings,
        fun hargs => hsession.navigable.cd_back hargs surroundings⟩

/-- A state with the root left for a new folder. A file made there stays when the run goes back
to the root, and so it does in a session. -/
theorem persistent_after_makeFolder :
    let made := (FileSystem.empty.perform (.makeFolder "a/b" true)).2
    let state := (made.perform (.changeDirectory "a")).2
    let operations := [.touch "x", .changeDirectory "b", .changeDirectory "-", .changeDirectory "-"]
    state.Reachable ∧ state.directories = ["/", "/a"] ∧
      (state.run operations).2.directories = ["/"] ∧ state.Keeps (state.run operations).2 ∧
      ((Session.start Builtin.registry state .bare {}).actAll
        [.submit "touch x; cd -", .historyUp, .submit "!!"]).workspace.files.Navigable := by
  intro made state operations
  have hempty : FileSystem.ofRecord (.folder "" []) = .ok FileSystem.empty := rfl
  have hstate : state.Reachable := ((Reachable.start hempty "guest" 0 []).step _).step _
  have h := reachable_persistent hstate
  refine ⟨hstate, by decide +kernel, by decide +kernel, (h.1 operations).1, (h.2 .bare {} _).2.1⟩

end FileSystem

end PocketShell
