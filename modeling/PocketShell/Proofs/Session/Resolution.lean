import PocketShell.Proofs.Session.Frame

set_option autoImplicit false

/-! # What a name leads to

A session looks for a command under a name as it is written, and then under the name in lower case.
The command `which` looks among the aliases, and then for a command under the name as it is written
only. So it tells of each name what the session makes of it, except for a name that leads to a
command in lower case and to nothing as it is written (`which_agrees_iff`).
-/

namespace PocketShell

/-- The catalogue of a registry finds the same commands. -/
theorem Registry.find?_catalogue {α : Type} (registry : Registry α) (name : String) :
    registry.catalogue.find? name = (registry.find? name).map Registered.described :=
  Std.TreeMap.getElem?_map

/-! ## The command `which` -/

namespace Builtin

/-- **When `which` says that there is no such name.** Its other lines about a name are longer. -/
theorem whichLine_eq_iff {catalogue : Registry Unit} {aliases : Std.TreeMap String String}
    {name : String} :
    whichLine catalogue aliases name = s!"which: no {name}" ↔
      aliases[name]? = none ∧ catalogue.find? name = none := by
  have hno : (toString "which: no ").length = 10 := rfl
  have haliased : (toString ": aliased to '").length = 14 := rfl
  have hbuiltin : (toString ": built-in command").length = 18 := rfl
  have hother : (toString ": built-in command (alias of ").length = 29 := rfl
  rw [whichLine]
  cases aliases[name]? with
  | some value =>
      refine iff_of_false (fun hline => ?_) (fun h => nomatch h.1)
      have hlength := congrArg String.length hline
      simp only [String.length_append] at hlength
      omega
  | none =>
      cases catalogue.find? name with
      | none => simp
      | some entry =>
          refine iff_of_false (fun hline => ?_) (fun h => nomatch h.2)
          dsimp only at hline
          have hlength := congrArg String.length hline
          split_ifs at hlength <;>
          · simp only [String.length_append] at hlength
            omega

/-- `which` shows one line for each argument, and changes nothing. -/
theorem run_which (inv : Invocation) (surroundings : Surroundings) (workspace : Workspace) :
    ((which.action inv).run surroundings).run workspace
      = (.ok (.lines (inv.args.map (whichLine surroundings.catalogue workspace.aliases))),
          workspace) := rfl

end Builtin

/-! ## The session -/

namespace Session

variable {session : Session}

theorem command?_eq_none_iff {name : String} :
    session.command? name = none ↔
      session.registry.find? name = none ∧ session.registry.find? (Text.lower name) = none := by
  rw [command?, Option.map_eq_none_iff, Option.orElse_eq_orElse, Option.orElse_eq_or,
    Option.or_eq_none_iff]

/-- Whether a name leads to a command only when it is written in lower case. -/
def FoundInLowerCaseOnly (session : Session) (name : String) : Prop :=
  session.registry.find? name = none ∧ (session.registry.find? (Text.lower name)).isSome = true

/-- Whether a session starts no command and answers that there is none of this name. -/
def AnswersNotFound (session : Session) (workspace : Workspace) (inv : Invocation) : Prop :=
  session.started? workspace inv = none ∧
    session.runLine workspace {} (.pipeline (.single inv))
      = ({ lines := [.error s!"command not found: {inv.name}"] }, workspace)

/-- A text that goes on has the same second character. -/
theorem getElem?_one_append {start : String} {c : Char} (h : start.toList[1]? = some c)
    (rest : String) : (start ++ rest).toList[1]? = some c := by
  rw [String.toList_append, List.getElem?_append_left (List.getElem?_eq_some_iff.mp h).1, h]

/-- The errors about a command that is refused begin with other words than that about a name without
a command. -/
theorem message_ne_notFound {error : ShellError} {usage : String}
    (h : error = .command (.usage usage) ∨ ∃ missing, error = .desktop (.unavailable missing))
    (name : String) : error.message ≠ s!"command not found: {name}" := by
  intro hmessage
  have hnotFound : (s!"command not found: {name}").toList[1]? = some 'o' :=
    getElem?_one_append (by decide) _
  rw [← hmessage] at hnotFound
  rcases h with rfl | ⟨missing, rfl⟩
  · have husage : (s!"usage: {usage}").toList[1]? = some 's' := getElem?_one_append (by decide) _
    have hsame := husage.symm.trans hnotFound
    exact absurd hsame (by decide)
  · have hmissing : (s!"capability unavailable: {missing.title}").toList[1]? = some 'a' :=
      getElem?_one_append (by decide) _
    have hsame := hmissing.symm.trans hnotFound
    exact absurd hsame (by decide)

/-- **A session answers that there is no such command** exactly if the name leads to none. -/
theorem answersNotFound_iff {workspace : Workspace} {inv : Invocation} :
    session.AnswersNotFound workspace inv ↔ session.command? inv.name = none := by
  constructor
  · rintro ⟨hstarted, hrun⟩
    by_contra hknown
    obtain ⟨command, hcommand⟩ := Option.ne_none_iff_exists'.mp hknown
    obtain ⟨error, herror, hrefused⟩ := run_of_refused hcommand hstarted none
    have hmessage : error.message = s!"command not found: {inv.name}" := by
      simpa [runLine, runPipeline, hrefused, Rendering.add] using hrun
    exact message_ne_notFound herror inv.name hmessage
  · intro hunknown
    refine ⟨started?_eq_none_iff.mpr (.inl hunknown), ?_⟩
    rw [runLine, runPipeline, run_of_command?_eq_none hunknown]
    rfl

/-- **What `which` says of names and what the session makes of them.** For each argument `which`
shows a line. It says that there is no such name exactly if the name is no alias and leads to no
command as it is written. This is when the session answers that there is no such command, aliases
apart, unless the name leads to a command only when it is written in lower case. -/
theorem which_agrees_iff (session : Session) (workspace : Workspace)
    (input : Option (List String)) (inv : Invocation) :
    ∃ lines, ((Builtin.which.action inv).run {
          catalogue := session.registry.catalogue
          settings := session.settings
          input }).run workspace = (.ok (.lines lines), workspace) ∧
      List.Forall₂ (fun name line =>
        (line = s!"which: no {name}" ↔
          workspace.aliases[name]? = none ∧ session.registry.find? name = none) ∧
        ∀ typed : Invocation, typed.name = name →
          (session.AnswersNotFound workspace typed ↔ session.command? name = none) ∧
          ((line = s!"which: no {name}" ↔
              workspace.aliases[name]? = none ∧ session.AnswersNotFound workspace typed) ↔
            ¬ (workspace.aliases[name]? = none ∧ session.FoundInLowerCaseOnly name)))
        inv.args lines := by
  refine ⟨_, Builtin.run_which inv _ workspace, ?_⟩
  rw [List.forall₂_map_right_iff, List.forall₂_same]
  intro name _
  have hline : Builtin.whichLine session.registry.catalogue workspace.aliases name
      = s!"which: no {name}" ↔
        workspace.aliases[name]? = none ∧ session.registry.find? name = none := by
    rw [Builtin.whichLine_eq_iff, Registry.find?_catalogue, Option.map_eq_none_iff]
  refine ⟨hline, ?_⟩
  rintro typed rfl
  refine ⟨answersNotFound_iff, ?_⟩
  rw [hline, answersNotFound_iff, command?_eq_none_iff, FoundInLowerCaseOnly,
    ← Option.ne_none_iff_isSome]
  tauto

/-- The name `PWD` is the name of no command, and runs the command `pwd`. -/
theorem which_misses_upper_case :
    let session := start Builtin.registry .empty .bare {}
    (session.submit "which PWD").1
        = [.prompt "guest@folio:~$ " "which PWD", .text "which: no PWD"] ∧
      (session.submit "PWD").1 = [.prompt "guest@folio:~$ " "PWD", .text "/"] := by
  decide +kernel

end Session

end PocketShell
