import PocketShell.Proofs.Shell.Effect
import PocketShell.Shell.Builtin

set_option autoImplicit false

/-! # What the built-in commands change

Each built-in command changes at most one part of the workspace, which its name tells
(`Builtin.effectOf`), whatever it is given and however it ends. Most change nothing. The
commands that change files do so by operations on files, one for each of their arguments.

The proofs follow the steps of each command. All commands on one service of the desktop have
the effect from the step that they share.
-/

namespace PocketShell

/-- The command has the effect, whatever it is given. -/
def Command.HasEffect (effect : Effect) (command : Command Handler) : Prop :=
  ∀ inv, ShellM.HasEffect effect (command.action inv)

namespace Builtin

open ShellM (EffectAt effectAt_bind effectAt_bind_of_nothing effectAt_set)

/-- The part of the workspace that a built-in command may change. -/
def effectOf (name : String) : Effect :=
  if name ∈ ["cd", "mkdir", "touch"] then .files
  else if name ∈ ["alias", "unalias"] then .aliases
  else if name ∈ ["export", "unset"] then .env
  else if name ∈ ["open", "close", "minimize", "maximize", "focus", "music", "theme", "sound",
    "lang", "notify"] then .desktop
  else .nothing

/-! ## Commands on files -/

theorem pwd_effect : pwd.HasEffect .nothing :=
  fun _ => .get fun workspace => ShellM.HasEffect.pure _ workspace

theorem cd_effect : cd.HasEffect .files := by
  intro inv
  refine .bind (.onFiles fun fs => ?_) fun _ => .pure _
  exact ⟨[.changeDirectory ((inv.arg? 0).getD "~")], rfl⟩

theorem listLines_effect (path : Option String) (options : ListOptions) :
    ShellM.HasEffect .nothing (listLines path options) :=
  .bind (.askFiles _) fun _ => .pure _

theorem listEach_effect (options : ListOptions) (paths : List String) :
    ShellM.HasEffect .nothing (listEach options paths) := by
  induction paths with
  | nil => exact .pure _
  | cons path rest ih => exact .bind (listLines_effect _ _) fun _ => .bind ih fun _ => .pure _

theorem ls_effect : ls.HasEffect .nothing := by
  intro inv
  unfold ls
  dsimp only
  split
  · exact .bind (listLines_effect _ _) fun _ => .pure _
  · exact .bind (listLines_effect _ _) fun _ => .pure _
  · exact .bind (listEach_effect _ _) fun _ => .pure _

theorem cat_effect : cat.HasEffect .nothing := by
  intro inv
  refine .bind (.mapM (fun path => ?_) inv.args) fun _ => .pure _
  exact .bind (.askFiles _) fun _ => .pure _

theorem mkdir_effect : mkdir.HasEffect .files := by
  intro inv
  refine .bind (.mapM (fun path => .onFiles fun fs => ?_) inv.args) fun _ => .pure _
  exact ⟨[.makeFolder path (inv.hasAnyFlag ["p", "parents"])], rfl⟩

theorem touch_effect : touch.HasEffect .files := by
  intro inv
  refine .bind (.mapM (fun path => .bind (.onFiles fun fs => ?_) fun _ => .pure _) inv.args)
    fun _ => .pure _
  exact ⟨[.touch path], rfl⟩

theorem stat_effect : stat.HasEffect .nothing :=
  fun _ => .bind (.orUsage _ _) fun _ => .bind (.askFiles _) fun _ => .pure _

theorem find_effect : find.HasEffect .nothing :=
  fun _ => .bind (.orUsage _ _) fun _ => .bind (.askFiles _) fun _ => .pure _

theorem drawingOf_effect (depth : Nat) (start : Option String) (words : List String) :
    ShellM.HasEffect .nothing (drawingOf depth start words) := by
  fun_induction drawingOf depth start words with
  | case1 => exact .pure _
  | case2 => exact .bind (.readCount _ _) fun _ => .pure _
  | case3 depth start count rest ih => exact .bind (.readCount _ _) fun depth => ih depth
  | case4 => exact .refuseUsage _
  | case5 depth start word rest _ _ _ ih => exact ih

theorem tree_effect : tree.HasEffect .nothing :=
  fun _ => .read fun _ => .bind (drawingOf_effect _ _ _) fun _ =>
    .bind (.askFiles _) fun _ => .pure _

/-! ## Commands on the session -/

theorem echo_effect : echo.HasEffect .nothing := by
  intro inv
  refine .read fun surroundings => ?_
  split
  · exact .pure _
  · exact .pure _

theorem clear_effect : clear.HasEffect .nothing := fun _ => .pure _

theorem help_effect : help.HasEffect .nothing := by
  intro inv
  refine .read fun surroundings => ?_
  dsimp only
  split
  · exact .pure _
  · split
    · exact .pure _
    · exact .throw _

theorem history_effect : history.HasEffect .nothing := by
  intro inv
  show ShellM.HasEffect .nothing (if inv.words.isEmpty then _ else _)
  split_ifs
  · exact .get fun workspace => ShellM.HasEffect.pure _ workspace
  · exact .refuseUsage _

theorem alias_effect : «alias».HasEffect .aliases := by
  intro inv
  refine .get fun workspace => ?_
  dsimp only
  split_ifs
  · exact ShellM.HasEffect.pure _ workspace
  · split
    · split_ifs
      · exact ShellM.HasEffect.refuseUsage _ workspace
      · exact effectAt_bind (effectAt_set ⟨_, rfl⟩) fun _ => .pure _
    · split
      · exact ShellM.HasEffect.pure _ workspace
      · exact ShellM.HasEffect.refuse _ workspace

theorem removeAlias_effect (name : String) : ShellM.HasEffect .aliases (removeAlias name) := by
  refine .get fun workspace => ?_
  split_ifs
  · exact effectAt_set ⟨_, rfl⟩
  · exact ShellM.HasEffect.refuse _ workspace

theorem unalias_effect : unalias.HasEffect .aliases :=
  fun inv => .bind (.forM removeAlias_effect inv.args) fun _ => .pure _

theorem export_effect : «export».HasEffect .env := by
  intro inv
  refine .get fun workspace => ?_
  dsimp only
  split_ifs
  · exact ShellM.HasEffect.pure _ workspace
  · refine effectAt_bind_of_nothing (ShellM.HasEffect.orUsage _ _ workspace) fun definition => ?_
    split_ifs
    · exact effectAt_bind (effectAt_set ⟨_, rfl⟩) fun _ => .pure _
    · exact ShellM.HasEffect.refuse _ workspace

theorem unset_effect : unset.HasEffect .env :=
  fun _ => .bind (.modify fun _ => ⟨_, rfl⟩) fun _ => .pure _

theorem env_effect : env.HasEffect .nothing :=
  fun _ => .get fun workspace => ShellM.HasEffect.pure _ workspace

theorem which_effect : which.HasEffect .nothing :=
  fun _ => .read fun _ => .get fun workspace => ShellM.HasEffect.pure _ workspace

/-! ## Filters -/

theorem grep_effect : grep.HasEffect .nothing :=
  fun _ => .bind (.orUsage _ _) fun _ => .bind (.readInput _ _) fun _ => .pure _

theorem headOf_effect (count : Nat) (file : Option String) (words : List String) :
    ShellM.HasEffect .nothing (headOf count file words) := by
  fun_induction headOf count file words with
  | case1 => exact .pure _
  | case2 => exact .bind (.readCount _ _) fun _ => .pure _
  | case3 count file word rest ih => exact .bind (.readCount _ _) fun count => ih count
  | case4 count file word rest _ _ c digits _ _ ih =>
      exact .bind (.readCount _ _) fun count => ih count
  | case5 count file word rest _ _ c digits _ _ ih => exact ih
  | case6 count file word rest _ _ _ ih => exact ih

theorem head_effect : head.HasEffect .nothing :=
  fun _ => .bind (headOf_effect _ _ _) fun _ => .bind (.readInput _ _) fun _ => .pure _

theorem wc_effect : wc.HasEffect .nothing :=
  fun _ => .bind (.readInput _ _) fun _ => .pure _

/-! ## Commands for the desktop -/

variable {α : Type}

theorem onWindows_effect (act : Windows → Except DesktopError (α × Windows)) :
    ShellM.HasEffect .desktop (onWindows act) := .onService _ _ _ _

theorem onPlayer_effect (act : Player → Except DesktopError (α × Player)) :
    ShellM.HasEffect .desktop (onPlayer act) := .onService _ _ _ _

theorem onTheme_effect (act : Choice → Except DesktopError (α × Choice)) :
    ShellM.HasEffect .desktop (onTheme act) := .onService _ _ _ _

theorem onLanguage_effect (act : Choice → Except DesktopError (α × Choice)) :
    ShellM.HasEffect .desktop (onLanguage act) := .onService _ _ _ _

theorem changeSound_effect (change : Sound → Sound) :
    ShellM.HasEffect .desktop (changeSound change) := .onService _ _ _ _

theorem windowCommand_effect (name summary verb : String)
    (change : Windows → String → Except DesktopError Windows) :
    (windowCommand name summary verb change).HasEffect .desktop :=
  fun _ => .bind (.orUsage _ _) fun _ => .bind (onWindows_effect _) fun _ => .pure _

/-- The list of windows is only looked at. -/
theorem windows_effect : windows.HasEffect .nothing := by
  intro inv
  refine .bind (.askService _ ?_ ?_) fun opened => ?_
  · intro desktop state hstate
    rw [← hstate]
  · intro state answer hanswer
    obtain rfl := Except.ok.inj hanswer
    rfl
  · split_ifs
    · exact .pure _
    · exact .pure _

theorem music_effect : music.HasEffect .desktop := by
  intro inv
  unfold music
  dsimp only
  split
  · exact .bind (onPlayer_effect _) fun _ => .pure _
  · exact .bind (onPlayer_effect _) fun _ => .pure _
  · exact .bind (onPlayer_effect _) fun _ => .pure _
  · exact .bind (onPlayer_effect _) fun _ => .pure _
  · exact .bind (onPlayer_effect _) fun _ => .pure _
  · exact .bind (onPlayer_effect _) fun _ => .pure _
  · exact .bind (onPlayer_effect _) fun _ => .pure _
  · refine .bind (onPlayer_effect _) fun playing => ?_
    split
    · exact .pure _
    · exact .pure _
  · refine .bind (onPlayer_effect _) fun playing => ?_
    split
    · exact .pure _
    · exact .pure _
  · exact .refuseUsage _

theorem onChoice_effect (title : String)
    {act : (Choice → Except DesktopError (Choice × Choice)) → ShellM Choice}
    (hact : ∀ change, ShellM.HasEffect .desktop (act change)) (inv : Invocation) :
    ShellM.HasEffect .desktop (onChoice title act inv) := by
  unfold onChoice
  split
  · exact .bind (hact _) fun _ => .pure _
  · exact .bind (hact _) fun _ => .pure _
  · exact .bind (hact _) fun _ => .pure _

theorem theme_effect : theme.HasEffect .desktop := onChoice_effect _ onTheme_effect

theorem lang_effect : lang.HasEffect .desktop := onChoice_effect _ onLanguage_effect

theorem sound_effect : sound.HasEffect .desktop := by
  intro inv
  unfold sound
  dsimp only
  split
  · exact .bind (changeSound_effect _) fun _ => .pure _
  · exact .bind (changeSound_effect _) fun _ => .pure _
  · exact .bind (changeSound_effect _) fun _ => .pure _
  · refine .bind (.orUsage _ _) fun word => ?_
    split
    · exact .bind (changeSound_effect _) fun _ => .pure _
    · exact .bind (.refuse _) fun _ => .pure _
  · refine .bind (.orUsage _ _) fun word => ?_
    split
    · exact .bind (changeSound_effect _) fun _ => .pure _
    · exact .bind (.refuse _) fun _ => .pure _
  · exact .bind (changeSound_effect _) fun _ => .pure _
  · exact .bind (changeSound_effect _) fun _ => .pure _
  · exact .bind (.refuseUsage _) fun _ => .pure _

theorem notify_effect : notify.HasEffect .desktop := by
  intro inv
  unfold notify
  dsimp only
  split
  · exact .refuseUsage _
  · exact .bind (.onService _ _ _ _) fun _ => .pure _

/-! ## All of them -/

theorem nodup_names : (commands.map fun command => command.description.name).Nodup := by decide

/-- **Each built-in command has the effect that its name tells.** -/
theorem commands_effect {command : Command Handler} (h : command ∈ commands) :
    command.HasEffect (effectOf command.description.name) := by
  simp only [commands, fileCommands, sessionCommands, filterCommands, desktopCommands,
    List.cons_append, List.nil_append, List.mem_cons, List.not_mem_nil, or_false] at h
  rcases h with rfl | rfl | rfl | rfl | rfl | rfl | rfl | rfl | rfl | rfl | rfl | rfl | rfl | rfl |
    rfl | rfl | rfl | rfl | rfl | rfl | rfl | rfl | rfl | rfl | rfl | rfl | rfl | rfl | rfl | rfl |
    rfl | rfl | rfl
  · exact pwd_effect
  · exact cd_effect
  · exact ls_effect
  · exact cat_effect
  · exact mkdir_effect
  · exact touch_effect
  · exact stat_effect
  · exact find_effect
  · exact tree_effect
  · exact echo_effect
  · exact clear_effect
  · exact help_effect
  · exact history_effect
  · exact alias_effect
  · exact unalias_effect
  · exact export_effect
  · exact unset_effect
  · exact env_effect
  · exact which_effect
  · exact grep_effect
  · exact head_effect
  · exact wc_effect
  · exact windowCommand_effect _ _ _ _
  · exact windowCommand_effect _ _ _ _
  · exact windowCommand_effect _ _ _ _
  · exact windowCommand_effect _ _ _ _
  · exact windowCommand_effect _ _ _ _
  · exact windows_effect
  · exact music_effect
  · exact theme_effect
  · exact sound_effect
  · exact lang_effect
  · exact notify_effect

end Builtin

end PocketShell
