import PocketShell.Proofs.Checked.Basic
import PocketShell.Proofs.Outcome
import PocketShell.Proofs.Session.Frame
import PocketShell.Proofs.Shell.Ensures

set_option autoImplicit false

/-! # The commands for the desktop stay in range

The music player goes round its playlist by a remainder, which is never one by zero, and its cursor
is at a track of the playlist, or at the start (`Player.InRange`). Each command keeps it there
(`Builtin.commands_keepPlayer`), also one that ends with an error.

Two commands cut their arguments after the first one. Both have looked at the first one before
(`Checked.music_eq`, `Checked.notify_eq`).
-/

namespace PocketShell

/-! ## The cursor of the player -/

namespace Player

/-- **The cursor is at a track**, or at the start of a playlist without tracks. -/
def InRange (player : Player) : Prop := player.cursor = 0 ∨ player.cursor < player.playlist.length

/-- The playlist is the same, and the cursor stays in range. -/
structure Keeps (player after : Player) : Prop where
  playlist : after.playlist = player.playlist
  inRange : player.InRange → after.InRange

variable {player after : Player} {track : Track}

theorem lt_of_current (h : player.current = .ok track) :
    player.cursor < player.playlist.length := by
  rw [current] at h
  split at h
  · next heq => exact (List.getElem?_eq_some_iff.mp heq).1
  · cases h

/-- A player that is only asked is the same. -/
theorem keeps_of_map {α β : Type} {answer : Except DesktopError β} {f : β → α} {a : α}
    (h : (answer.map fun b => (f b, player)) = .ok (a, after)) : player.Keeps after := by
  obtain ⟨b, -, heq⟩ := exists_of_map_ok h
  obtain ⟨-, rfl⟩ := Prod.mk.inj heq
  exact ⟨rfl, id⟩

theorem keeps_playAt {cursor : Nat} (h : player.playAt cursor = .ok (track, after)) :
    player.Keeps after := by
  obtain ⟨current, hcurrent, heq⟩ := exists_of_map_ok h
  obtain ⟨-, rfl⟩ := Prod.mk.inj heq
  exact ⟨rfl, fun _ => .inr (lt_of_current hcurrent)⟩

theorem keeps_play {query : Option String} (h : player.play query = .ok (track, after)) :
    player.Keeps after := by
  unfold play at h
  split at h
  · exact keeps_playAt h
  · split at h
    · exact keeps_playAt h
    · cases h

theorem keeps_skip {distance : Nat} (h : player.skip distance = .ok (track, after)) :
    player.Keeps after := by
  rw [skip] at h
  split_ifs at h
  exact keeps_playAt h

end Player

namespace Checked

/-- Goes to the next track or to the one before, round the playlist. Positions are held in words up
to a limit. -/
def step (limit : Nat) (player : Player) (forward : Bool) :
    Option (Except DesktopError (Track × Player)) :=
  let length := player.playlist.length
  if length = 0 then some (.error .emptyPlaylist)
  else do
    let position ← if forward then add limit player.cursor 1
      else do sub (← add limit player.cursor length) 1
    return player.playAt (← rem position length)

variable {limit : Nat} {player : Player}

/-- **A step is in range**: two playlists have to fit into what a word can count. -/
theorem step_eq (h : player.InRange) (hlimit : 2 * player.playlist.length ≤ limit) :
    step limit player true = some player.next ∧ step limit player false = some player.previous := by
  rw [Player.InRange] at h
  rw [step, step, Player.next, Player.previous, Player.skip, Player.skip]
  dsimp only
  by_cases hempty : player.playlist = []
  · rw [hempty]
    exact ⟨rfl, rfl⟩
  · have hlength : 0 < player.playlist.length := List.length_pos_of_ne_nil hempty
    have hnonempty : ¬ player.playlist.isEmpty = true := mt List.isEmpty_iff.mp hempty
    have hback : player.cursor + player.playlist.length - 1
        = player.cursor + (player.playlist.length - 1) := by omega
    simp only [Option.bind_eq_bind]
    constructor
    · rw [if_neg (by omega), if_neg hnonempty, if_pos trivial, add_eq (by omega), Option.bind_some,
        rem_eq hlength]
      rfl
    · rw [if_neg (by omega), if_neg hnonempty, if_neg Bool.false_ne_true, add_eq (by omega),
        Option.bind_some, sub_eq (by omega), Option.bind_some, rem_eq hlength, hback]
      rfl

end Checked

/-! ## What the commands do to the player -/

/-- The player of the desktop, if there is one, has the playlist, and its cursor is in range. -/
def Workspace.PlaysInRange (playlist : List Track) (workspace : Workspace) : Prop :=
  ∀ player, workspace.desktop.music = some player → player.playlist = playlist ∧ player.InRange

/-- The command keeps the player in range. -/
def Command.KeepsPlayer (command : Command Handler) : Prop :=
  ∀ playlist inv surroundings, ShellM.Ensures (Workspace.PlaysInRange playlist) surroundings
    (command.action inv) fun _ => True

namespace Builtin

open ShellM (Ensures)

variable {α : Type} {playlist : List Track} {surroundings : Surroundings}

/-- A service other than the player leaves it alone. -/
theorem onService_keepsPlayer {σ : Type} {capability : Capability} {read : Desktop → Option σ}
    {write : Desktop → σ → Desktop} {act : σ → Except DesktopError (α × σ)}
    (hwrite : ∀ desktop state, (write desktop state).music = desktop.music) :
    Ensures (Workspace.PlaysInRange playlist) surroundings
      (ShellM.onService capability read write act) fun _ => True := by
  refine .onService fun workspace h state _ a after _ => ⟨fun player hplayer => ?_, trivial⟩
  have hsame : (write workspace.desktop after).music = some player := hplayer
  rw [hwrite] at hsame
  exact h player hsame

theorem onPlayer_keepsPlayer {act : Player → Except DesktopError (α × Player)}
    (h : ∀ player a after, act player = .ok (a, after) → player.Keeps after) :
    Ensures (Workspace.PlaysInRange playlist) surroundings (onPlayer act) fun _ => True := by
  refine .onService fun workspace hworkspace player hread a after hact => ⟨?_, trivial⟩
  intro other hother
  obtain ⟨hplaylist, hrange⟩ := hworkspace player hread
  have hkeeps := h player a after hact
  obtain rfl : after = other := Option.some.inj hother
  exact ⟨hkeeps.playlist.trans hplaylist, hkeeps.inRange hrange⟩

theorem onWindows_keepsPlayer (act : Windows → Except DesktopError (α × Windows)) :
    Ensures (Workspace.PlaysInRange playlist) surroundings (onWindows act) fun _ => True :=
  onService_keepsPlayer fun _ _ => rfl

theorem onTheme_keepsPlayer (act : Choice → Except DesktopError (α × Choice)) :
    Ensures (Workspace.PlaysInRange playlist) surroundings (onTheme act) fun _ => True :=
  onService_keepsPlayer fun _ _ => rfl

theorem onLanguage_keepsPlayer (act : Choice → Except DesktopError (α × Choice)) :
    Ensures (Workspace.PlaysInRange playlist) surroundings (onLanguage act) fun _ => True :=
  onService_keepsPlayer fun _ _ => rfl

theorem changeSound_keepsPlayer (change : Sound → Sound) :
    Ensures (Workspace.PlaysInRange playlist) surroundings (changeSound change) fun _ => True :=
  onService_keepsPlayer fun _ _ => rfl

theorem windowCommand_keepsPlayer (name summary verb : String)
    (change : Windows → String → Except DesktopError Windows) :
    (windowCommand name summary verb change).KeepsPlayer := by
  intro playlist inv surroundings
  refine .bind (.orUsage (P := fun _ => True) fun _ _ => trivial) fun app _ => ?_
  exact .bind (onWindows_keepsPlayer _) fun _ _ => .pure trivial

theorem windows_keepsPlayer : windows.KeepsPlayer := by
  intro playlist inv surroundings
  refine .bind (onWindows_keepsPlayer _) fun opened _ => ?_
  split_ifs
  · exact .pure trivial
  · exact .pure trivial

theorem music_keepsPlayer : music.KeepsPlayer := by
  intro playlist inv surroundings
  have hpause : Ensures (Workspace.PlaysInRange playlist) surroundings
      (onPlayer fun player => .ok ((), player.pause)) fun _ => True := by
    refine onPlayer_keepsPlayer fun player a after h => ?_
    obtain ⟨-, rfl⟩ := Prod.mk.inj (Except.ok.inj h)
    exact ⟨rfl, id⟩
  unfold music
  dsimp only
  split
  · exact .bind (onPlayer_keepsPlayer fun _ _ _ => Player.keeps_play) fun _ _ => .pure trivial
  · exact .bind hpause fun _ _ => .pure trivial
  · exact .bind hpause fun _ _ => .pure trivial
  · exact .bind (onPlayer_keepsPlayer fun _ _ _ => Player.keeps_skip) fun _ _ => .pure trivial
  · exact .bind (onPlayer_keepsPlayer fun _ _ _ => Player.keeps_skip) fun _ _ => .pure trivial
  · exact .bind (onPlayer_keepsPlayer fun _ _ _ => Player.keeps_skip) fun _ _ => .pure trivial
  · exact .bind (onPlayer_keepsPlayer fun _ _ _ => Player.keeps_of_map) fun _ _ => .pure trivial
  · refine .bind (onPlayer_keepsPlayer fun _ _ _ => Player.keeps_of_map) fun playing _ => ?_
    cases playing with
    | none => exact .pure trivial
    | some track => exact .pure trivial
  · refine .bind (onPlayer_keepsPlayer fun _ _ _ => Player.keeps_of_map) fun playing _ => ?_
    cases playing with
    | none => exact .pure trivial
    | some track => exact .pure trivial
  · exact .refuseUsage _

theorem onChoice_keepsPlayer (title : String)
    {act : (Choice → Except DesktopError (Choice × Choice)) → ShellM Choice}
    (hact : ∀ change, Ensures (Workspace.PlaysInRange playlist) surroundings (act change)
      fun _ => True) (inv : Invocation) :
    Ensures (Workspace.PlaysInRange playlist) surroundings (onChoice title act inv)
      fun _ => True := by
  unfold onChoice
  split
  · exact .bind (hact _) fun _ _ => .pure trivial
  · exact .bind (hact _) fun _ _ => .pure trivial
  · exact .bind (hact _) fun _ _ => .pure trivial

theorem theme_keepsPlayer : theme.KeepsPlayer := fun _ inv _ =>
  onChoice_keepsPlayer _ onTheme_keepsPlayer inv

theorem lang_keepsPlayer : lang.KeepsPlayer := fun _ inv _ =>
  onChoice_keepsPlayer _ onLanguage_keepsPlayer inv

theorem sound_keepsPlayer : sound.KeepsPlayer := by
  intro playlist inv surroundings
  have hvolume : ∀ (word? : Option String), Ensures (Workspace.PlaysInRange playlist) surroundings
      (ShellM.orUsage soundDescription word?) fun _ => True :=
    fun _ => .orUsage fun _ _ => trivial
  unfold sound
  dsimp only
  split
  · exact .bind (changeSound_keepsPlayer _) fun _ _ => .pure trivial
  · exact .bind (changeSound_keepsPlayer _) fun _ _ => .pure trivial
  · exact .bind (changeSound_keepsPlayer _) fun _ _ => .pure trivial
  · refine .bind (hvolume _) fun word _ => ?_
    split
    · exact .bind (changeSound_keepsPlayer _) fun _ _ => .pure trivial
    · exact .bind (P := fun _ => True) (.refuse _) fun _ _ => .pure trivial
  · refine .bind (hvolume _) fun word _ => ?_
    split
    · exact .bind (changeSound_keepsPlayer _) fun _ _ => .pure trivial
    · exact .bind (P := fun _ => True) (.refuse _) fun _ _ => .pure trivial
  · exact .bind (changeSound_keepsPlayer _) fun _ _ => .pure trivial
  · exact .bind (changeSound_keepsPlayer _) fun _ _ => .pure trivial
  · exact .bind (P := fun _ => True) (.refuseUsage _) fun _ _ => .pure trivial

theorem notify_keepsPlayer : notify.KeepsPlayer := by
  intro playlist inv surroundings
  unfold notify
  dsimp only
  split
  · exact .refuseUsage _
  · exact .bind (onService_keepsPlayer fun _ _ => rfl) fun _ _ => .pure trivial

/-- A command whose effect is on another part leaves the desktop alone. -/
theorem keepsPlayer_of_effect {command : Command Handler} {effect : Effect}
    (h : command.HasEffect effect) (hne : effect ≠ .desktop) : command.KeepsPlayer := by
  intro playlist inv surroundings
  refine (h inv).ensures_of fun hallows hbefore => ?_
  have hsame : _ = _ := hallows.samePart hne
  rw [Workspace.PlaysInRange, hsame]
  exact hbefore

/-- The commands that are none for the desktop do not change it. -/
theorem effectOf_ne_desktop : ∀ command ∈ fileCommands ++ sessionCommands ++ filterCommands,
    effectOf command.description.name ≠ .desktop := by decide

/-- **Each built-in command keeps the player in range.** -/
theorem commands_keepPlayer {command : Command Handler} (h : command ∈ commands) :
    command.KeepsPlayer := by
  rcases List.mem_append.mp h with hother | hdesktop
  · exact keepsPlayer_of_effect (commands_effect h) (effectOf_ne_desktop command hother)
  · simp only [desktopCommands, List.mem_cons, List.not_mem_nil, or_false] at hdesktop
    rcases hdesktop with rfl | rfl | rfl | rfl | rfl | rfl | rfl | rfl | rfl | rfl | rfl
    · exact windowCommand_keepsPlayer _ _ _ _
    · exact windowCommand_keepsPlayer _ _ _ _
    · exact windowCommand_keepsPlayer _ _ _ _
    · exact windowCommand_keepsPlayer _ _ _ _
    · exact windowCommand_keepsPlayer _ _ _ _
    · exact windows_keepsPlayer
    · exact music_keepsPlayer
    · exact theme_keepsPlayer
    · exact sound_keepsPlayer
    · exact lang_keepsPlayer
    · exact notify_keepsPlayer

end Builtin

/-! ## Arguments after the first one -/

namespace Checked

/-- What `music` does: with `play` the arguments after the first one are the query. -/
def music (inv : Invocation) : Option (ShellM Output) := do
  match (inv.arg? 0).getD "status" with
  | "play" =>
      let query ← if 1 < inv.args.length then (drop inv.args 1).map (some ∘ Text.join " ")
        else some none
      return do return .line (Builtin.playingLine (← Builtin.onPlayer (·.play query)))
  | "pause" | "stop" =>
      return do
        Builtin.onPlayer fun player => .ok ((), player.pause)
        return .line "Paused"
  | "next" => return do return .line (Builtin.playingLine (← Builtin.onPlayer Player.next))
  | "prev" | "previous" =>
      return do return .line (Builtin.playingLine (← Builtin.onPlayer Player.previous))
  | "list" =>
      return do
        let (current, playlist) ← Builtin.onPlayer fun player =>
          player.nowPlaying.map fun current => ((current, player.playlist), player)
        return .lines (Builtin.playlistLines current 1 playlist)
  | "status" =>
      return do
        match ← Builtin.onPlayer fun player => player.nowPlaying.map (·, player) with
        | some track => return .line (Builtin.playingLine track)
        | none => return .line "Nothing playing"
  | _ => return ShellM.refuseUsage Builtin.musicDescription

/-- What `notify` does: the arguments after the first one are the body. -/
def notify (inv : Invocation) : Option (ShellM Output) :=
  match inv.arg? 0 with
  | none => some (ShellM.refuseUsage Builtin.notifyDescription)
  | some title => do
      let body ← drop inv.args 1
      return do
        ShellM.onService .notifications Desktop.notifications
          (fun desktop shown => { desktop with notifications := some shown })
          fun shown => .ok ((), shown ++ [{ title, body := Text.join " " body }])
        return .nothing

theorem notify_eq (inv : Invocation) : notify inv = some (Builtin.notify.action inv) := by
  rw [notify, Builtin.notify, Invocation.arg?]
  dsimp only
  cases inv.args with
  | nil => rfl
  | cons title body => rfl

theorem music_eq (inv : Invocation) : music inv = some (Builtin.music.action inv) := by
  rw [music, Builtin.music, Invocation.arg?]
  dsimp only
  cases inv.args with
  | nil => rfl
  | cons word rest =>
      rw [List.getElem?_cons_zero, Option.getD_some]
      split
      · cases rest with
        | nil => rfl
        | cons first more => rfl
      · rfl
      · rfl
      · rfl
      · rfl
      · rfl
      · rfl
      · rfl
      · next hplay hpause hstop hnext hprev hprevious hlist hstatus =>
          -- any other word is refused on both sides
          split
          · next heq => exact absurd (List.cons.inj heq).1 hplay
          · next heq => exact absurd (List.cons.inj heq).1 hpause
          · next heq => exact absurd (List.cons.inj heq).1 hstop
          · next heq => exact absurd (List.cons.inj heq).1 hnext
          · next heq => exact absurd (List.cons.inj heq).1 hprev
          · next heq => exact absurd (List.cons.inj heq).1 hprevious
          · next heq => exact absurd (List.cons.inj heq).1 hlist
          · next heq => exact absurd heq (List.cons_ne_nil _ _)
          · next heq => exact absurd (List.cons.inj heq).1 hstatus
          · rfl

end Checked

end PocketShell
