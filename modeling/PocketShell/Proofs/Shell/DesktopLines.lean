import PocketShell.Proofs.Shell.Lines

set_option autoImplicit false

/-! # What the commands for the desktop print

The commands for the desktop show names of windows, tracks and choices. A window is opened under the
name that is typed; all other commands only show names that the desktop has already. With these the
built-in commands are complete: each prints texts of one line and leaves a workspace without line
feeds, and only the commands of `Builtin.wordKeepers` need words without line feeds for it
(`Builtin.commands_printLines`).
-/

namespace PocketShell

open PocketShell.Text (IsLine)

namespace Builtin

open ShellM (Ensures)

variable {inv : Invocation} {α : Type}

/-! ## Windows -/

theorem onWindows_lines {surroundings : Surroundings}
    {act : Windows → Except DesktopError (α × Windows)} {P : α → Prop}
    (h : ∀ windows : Windows, (∀ window ∈ windows.opened, IsLine window.app) →
      ∀ a after, act windows = .ok (a, after) →
        (∀ window ∈ after.opened, IsLine window.app) ∧ P a) :
    Ensures Workspace.OnLines surroundings (onWindows act) P := by
  refine .onService fun workspace hw windows hread a after hact => ?_
  obtain ⟨hafter, ha⟩ := h windows (hw.desktop.windows windows hread) a after hact
  refine ⟨⟨hw.files, hw.env, hw.aliases, hw.history, ?_⟩, ha⟩
  refine ⟨fun other hother => ?_, hw.desktop.music, hw.desktop.theme, hw.desktop.language⟩
  rwa [← Option.some.inj hother]

theorem onPlayer_lines {surroundings : Surroundings}
    {act : Player → Except DesktopError (α × Player)} {P : α → Prop}
    (h : ∀ player : Player, (∀ track ∈ player.playlist, IsLine track.title ∧ IsLine track.artist) →
      ∀ a after, act player = .ok (a, after) → after.playlist = player.playlist ∧ P a) :
    Ensures Workspace.OnLines surroundings (onPlayer act) P := by
  refine .onService fun workspace hw player hread a after hact => ?_
  have htracks := hw.desktop.music player hread
  obtain ⟨hafter, ha⟩ := h player htracks a after hact
  refine ⟨⟨hw.files, hw.env, hw.aliases, hw.history, ?_⟩, ha⟩
  refine ⟨hw.desktop.windows, fun other hother => ?_, hw.desktop.theme, hw.desktop.language⟩
  rwa [← Option.some.inj hother, hafter]

/-- The window that is named is open, or it is opened under a name that is a line. -/
theorem windowCommand_lines {name summary verb : String}
    {change : Windows → String → Except DesktopError Windows} (hverb : IsLine verb)
    (hchange : ∀ (windows : Windows) (app : String) (after : Windows),
      (∀ window ∈ windows.opened, IsLine window.app) → app ∈ inv.args →
      change windows app = .ok after →
        (∀ window ∈ after.opened, IsLine window.app) ∧ IsLine app) :
    (windowCommand name summary verb change).PrintsLines inv := by
  intro surroundings hs
  refine .bind (.orUsage (P := fun app => app ∈ inv.args) fun app happ => ?_) fun app happ => ?_
  · exact List.mem_of_getElem? happ
  · refine .bind (P := fun _ => IsLine app) (onWindows_lines fun windows hw a after hact => ?_)
      fun _ hline => .pure (Output.onLines_line.mpr ?_)
    · obtain ⟨changed, hchanged, heq⟩ := exists_of_map_ok hact
      obtain ⟨-, rfl⟩ := Prod.mk.inj heq
      exact hchange windows app changed hw happ hchanged
    · simp +decide [hverb, hline]

theorem open_lines (hwords : WordsOnLines inv) : openWindow.PrintsLines inv := by
  refine windowCommand_lines (by decide) fun windows app after hw happ hchange => ?_
  obtain rfl := Except.ok.inj hchange
  have hline := hwords.args app happ
  refine ⟨?_, hline⟩
  rw [Windows.open]
  dsimp only
  split_ifs
  · exact hw
  · exact List.forall_mem_append.mpr ⟨hw, List.forall_mem_singleton.mpr hline⟩

/-- A window that is changed is open. -/
theorem isLine_of_ifOpen {windows after : Windows} {app : String} {change : Window → Windows}
    (hw : ∀ window ∈ windows.opened, IsLine window.app)
    (h : windows.ifOpen app change = .ok after) :
    (∃ window, after = change window) ∧ IsLine app := by
  rw [Windows.ifOpen] at h
  split at h
  · next window hwindow =>
      have hname : window.app = app := by simpa using List.find?_some hwindow
      refine ⟨⟨window, (Except.ok.inj h).symm⟩, ?_⟩
      rw [← hname]
      exact hw window (List.mem_of_find?_eq_some hwindow)
  · cases h

theorem isLine_setState {windows : Windows} (hw : ∀ window ∈ windows.opened, IsLine window.app)
    (app : String) (state : WindowState) :
    ∀ window ∈ (windows.setState app state).opened, IsLine window.app := by
  intro window hwindow
  obtain ⟨old, hold, rfl⟩ := List.mem_map.mp hwindow
  split_ifs
  · exact hw old hold
  · exact hw old hold

theorem close_lines (inv : Invocation) : closeWindow.PrintsLines inv := by
  refine windowCommand_lines (by decide) fun windows app after hw _ hchange => ?_
  obtain ⟨⟨window, rfl⟩, happ⟩ := isLine_of_ifOpen hw hchange
  exact ⟨fun window hwindow => hw window (List.mem_filter.mp hwindow).1, happ⟩

theorem minimize_lines (inv : Invocation) : minimizeWindow.PrintsLines inv := by
  refine windowCommand_lines (by decide) fun windows app after hw _ hchange => ?_
  obtain ⟨⟨window, rfl⟩, happ⟩ := isLine_of_ifOpen hw hchange
  exact ⟨isLine_setState hw app .minimized, happ⟩

theorem maximize_lines (inv : Invocation) : maximizeWindow.PrintsLines inv := by
  refine windowCommand_lines (by decide) fun windows app after hw _ hchange => ?_
  obtain ⟨⟨window, rfl⟩, happ⟩ := isLine_of_ifOpen hw hchange
  exact ⟨isLine_setState hw app .maximized, happ⟩

theorem focus_lines (inv : Invocation) : focusWindow.PrintsLines inv := by
  refine windowCommand_lines (by decide) fun windows app after hw _ hchange => ?_
  obtain ⟨⟨window, rfl⟩, happ⟩ := isLine_of_ifOpen hw hchange
  refine ⟨?_, happ⟩
  dsimp only
  split_ifs
  · exact isLine_setState hw app .normal
  · exact hw

theorem isLine_windowLine (windows : Windows) {window : Window} (h : IsLine window.app) :
    IsLine (windowLine windows window) := by
  have hmark : IsLine (if windows.hasFocus window then "*" else " ") := by
    split_ifs <;> decide
  have hstate : IsLine window.state.name := by
    cases window.state <;> decide
  simp only [windowLine, Text.isLine_append, Text.isLine_toString, Text.isLine_alignLeft]
  exact ⟨⟨⟨⟨hmark, by decide⟩, h⟩, by decide⟩, hstate⟩

theorem windows_lines (inv : Invocation) : windows.PrintsLines inv := by
  intro surroundings hs
  refine .bind (P := fun opened => ∀ window ∈ opened.opened, IsLine window.app)
    (onWindows_lines fun opened hw a after hact => ?_) fun opened hopened => ?_
  · obtain ⟨rfl, rfl⟩ := Prod.mk.inj (Except.ok.inj hact)
    exact ⟨hw, hw⟩
  · split_ifs
    · exact .pure (Output.onLines_line.mpr (by decide))
    · refine .pure fun line hline => ?_
      obtain ⟨window, hwindow, rfl⟩ := List.mem_map.mp hline
      exact isLine_windowLine opened (hopened window hwindow)

/-! ## Music -/

theorem isLine_text {track : Track} (h : IsLine track.title ∧ IsLine track.artist) :
    IsLine track.text := by
  simp +decide [Track.text, h]

/-- A track that is current is one of the playlist. -/
theorem mem_of_current {player : Player} {track : Track} (h : player.current = .ok track) :
    track ∈ player.playlist := by
  rw [Player.current] at h
  split at h
  · next found hfound =>
      rw [← Except.ok.inj h]
      exact List.mem_of_getElem? hfound
  · cases h

/-- Playing keeps the playlist and gives one of its tracks. -/
def PlaysTrack (act : Player → Except DesktopError (Track × Player)) : Prop :=
  ∀ player track after, act player = .ok (track, after) →
    after.playlist = player.playlist ∧ track ∈ player.playlist

theorem playsTrack_playAt {player : Player} {cursor : Nat} {track : Track} {after : Player}
    (h : player.playAt cursor = .ok (track, after)) :
    after.playlist = player.playlist ∧ track ∈ player.playlist := by
  obtain ⟨current, hcurrent, heq⟩ := exists_of_map_ok h
  obtain ⟨rfl, rfl⟩ := Prod.mk.inj heq
  have hmem := mem_of_current hcurrent
  exact ⟨rfl, hmem⟩

theorem playsTrack_play (query : Option String) : PlaysTrack (·.play query) := by
  intro player track after h
  dsimp only at h
  unfold Player.play at h
  split at h
  · exact playsTrack_playAt h
  · split at h
    · exact playsTrack_playAt h
    · cases h

theorem playsTrack_skip {player : Player} {distance : Nat} {track : Track} {after : Player}
    (h : player.skip distance = .ok (track, after)) :
    after.playlist = player.playlist ∧ track ∈ player.playlist := by
  rw [Player.skip] at h
  split_ifs at h
  exact playsTrack_playAt h

theorem onPlayer_playing {surroundings : Surroundings}
    {act : Player → Except DesktopError (Track × Player)} (hact : PlaysTrack act) :
    Ensures Workspace.OnLines surroundings (onPlayer act) fun track =>
      IsLine (playingLine track) := by
  refine onPlayer_lines fun player htracks track after h => ?_
  obtain ⟨hplaylist, hmem⟩ := hact player track after h
  refine ⟨hplaylist, ?_⟩
  simp +decide [playingLine, isLine_text (htracks track hmem)]

theorem isLine_playlistLines (current : Option Track) (first : Nat) {tracks : List Track}
    (h : ∀ track ∈ tracks, IsLine track.title ∧ IsLine track.artist) :
    ∀ line ∈ playlistLines current first tracks, IsLine line := by
  induction tracks generalizing first with
  | nil => exact List.forall_mem_nil _
  | cons track rest ih =>
      obtain ⟨htrack, hrest⟩ := List.forall_mem_cons.mp h
      have hmark : IsLine (if current = some track then ">" else " ") := by
        split_ifs <;> decide
      refine List.forall_mem_cons.mpr ⟨?_, ih (first + 1) hrest⟩
      simp only [Text.isLine_append, Text.isLine_toString, Text.isLine_alignRight]
      exact ⟨⟨⟨⟨hmark, by decide⟩, Text.isLine_repr first⟩, by decide⟩, isLine_text htrack⟩

theorem nowPlaying_lines {surroundings : Surroundings} :
    Ensures Workspace.OnLines surroundings
      (onPlayer fun player => player.nowPlaying.map (·, player)) fun playing =>
        ∀ track, playing = some track → IsLine (playingLine track) := by
  refine onPlayer_lines fun player htracks playing after h => ?_
  obtain ⟨now, hnow, heq⟩ := exists_of_map_ok h
  obtain ⟨rfl, rfl⟩ := Prod.mk.inj heq
  refine ⟨rfl, fun track htrack => ?_⟩
  subst htrack
  rw [Player.nowPlaying] at hnow
  split_ifs at hnow
  · obtain ⟨current, hcurrent, heq⟩ := exists_of_map_ok hnow
    obtain rfl := Option.some.inj heq
    simp +decide [playingLine, isLine_text (htracks _ (mem_of_current hcurrent))]
  · cases Except.ok.inj hnow

theorem music_lines (inv : Invocation) : music.PrintsLines inv := by
  intro surroundings hs
  have hplaying : ∀ {act : Player → Except DesktopError (Track × Player)}, PlaysTrack act →
      Ensures Workspace.OnLines surroundings
        (do return .line (playingLine (← onPlayer act))) Output.OnLines := fun hact =>
    .bind (onPlayer_playing hact) fun _ hline => .pure (Output.onLines_line.mpr hline)
  have hpaused : Ensures Workspace.OnLines surroundings
      (do onPlayer fun player => .ok ((), player.pause); return .line "Paused") Output.OnLines := by
    refine .bind (P := fun _ => True) (onPlayer_lines fun player _ a after hact => ?_)
      fun _ _ => .pure (Output.onLines_line.mpr (by decide))
    obtain ⟨-, rfl⟩ := Prod.mk.inj (Except.ok.inj hact)
    exact ⟨rfl, trivial⟩
  have hstatus : ∀ {render : Option Track → ShellM Output},
      (∀ track, IsLine (playingLine track) →
        Ensures Workspace.OnLines surroundings (render (some track)) Output.OnLines) →
      Ensures Workspace.OnLines surroundings (render none) Output.OnLines →
      Ensures Workspace.OnLines surroundings
        ((onPlayer fun player => player.nowPlaying.map (·, player)) >>= render) Output.OnLines := by
    intro render hsome hnone
    refine .bind nowPlaying_lines fun playing hline => ?_
    cases playing with
    | none => exact hnone
    | some track => exact hsome track (hline track rfl)
  unfold music
  dsimp only
  split
  · exact hplaying (playsTrack_play _)
  · exact hpaused
  · exact hpaused
  · exact hplaying fun _ _ _ => playsTrack_skip
  · exact hplaying fun _ _ _ => playsTrack_skip
  · exact hplaying fun _ _ _ => playsTrack_skip
  · refine .bind (P := fun listed : Option Track × List Track =>
      ∀ track ∈ listed.2, IsLine track.title ∧ IsLine track.artist)
      (onPlayer_lines fun player htracks listed after hact => ?_) fun listed htracks =>
        .pure (isLine_playlistLines listed.1 1 htracks)
    obtain ⟨now, -, heq⟩ := exists_of_map_ok hact
    obtain ⟨rfl, rfl⟩ := Prod.mk.inj heq
    exact ⟨rfl, htracks⟩
  · exact hstatus (fun _ hline => .pure (Output.onLines_line.mpr hline))
      (.pure (Output.onLines_line.mpr (by decide)))
  · exact hstatus (fun _ hline => .pure (Output.onLines_line.mpr hline))
      (.pure (Output.onLines_line.mpr (by decide)))
  · exact .refuseUsage _

/-! ## Theme and language -/

theorem isLine_current {choice : Choice} (h : ∀ name ∈ choice.names, IsLine name) :
    IsLine choice.current := by
  rw [Choice.current, List.getD_eq_getElem?_getD]
  cases hname : choice.names[choice.index]? with
  | none => decide
  | some name => exact h name (List.mem_of_getElem? hname)

theorem names_select {choice after : Choice} {name : String}
    (h : choice.select name = .ok after) : after.names = choice.names := by
  rw [Choice.select] at h
  split at h
  · rw [← Except.ok.inj h]
  · cases h

/-- A step with a choice keeps its names and gives a choice with the same names. -/
def KeepsNames (act : (Choice → Except DesktopError (Choice × Choice)) → ShellM Choice) : Prop :=
  ∀ surroundings change, (∀ choice answer after, change choice = .ok (answer, after) →
    after.names = choice.names ∧ answer.names = choice.names) →
      Ensures Workspace.OnLines surroundings (act change) fun answer =>
        ∀ name ∈ answer.names, IsLine name

theorem onTheme_lines : KeepsNames onTheme := by
  intro surroundings change hchange
  refine .onService fun workspace hw choice hread answer after hact => ?_
  have hnames := hw.desktop.theme choice hread
  obtain ⟨hafter, hanswer⟩ := hchange choice answer after hact
  refine ⟨⟨hw.files, hw.env, hw.aliases, hw.history, ?_⟩, by rwa [hanswer]⟩
  refine ⟨hw.desktop.windows, hw.desktop.music, fun other hother => ?_, hw.desktop.language⟩
  rwa [← Option.some.inj hother, hafter]

theorem onLanguage_lines : KeepsNames onLanguage := by
  intro surroundings change hchange
  refine .onService fun workspace hw choice hread answer after hact => ?_
  have hnames := hw.desktop.language choice hread
  obtain ⟨hafter, hanswer⟩ := hchange choice answer after hact
  refine ⟨⟨hw.files, hw.env, hw.aliases, hw.history, ?_⟩, by rwa [hanswer]⟩
  refine ⟨hw.desktop.windows, hw.desktop.music, hw.desktop.theme, fun other hother => ?_⟩
  rwa [← Option.some.inj hother, hafter]

theorem onChoice_lines {title : String} (htitle : IsLine title) (hlower : IsLine title.toLower)
    {act : (Choice → Except DesktopError (Choice × Choice)) → ShellM Choice}
    (hact : KeepsNames act) (inv : Invocation) {surroundings : Surroundings} :
    Ensures Workspace.OnLines surroundings (onChoice title act inv) Output.OnLines := by
  have hask : Ensures Workspace.OnLines surroundings (act fun choice => .ok (choice, choice))
      fun answer => ∀ name ∈ answer.names, IsLine name := by
    refine hact surroundings _ fun choice answer after h => ?_
    obtain ⟨rfl, rfl⟩ := Prod.mk.inj (Except.ok.inj h)
    exact ⟨rfl, rfl⟩
  unfold onChoice
  split
  · refine .bind hask fun choice hnames => .pure (Output.onLines_line.mpr ?_)
    simp +decide only [Text.isLine_append, Text.isLine_toString, hlower, isLine_current hnames]
  · refine .bind hask fun choice hnames => .pure fun line hline => ?_
    obtain ⟨name, hname, rfl⟩ := List.mem_map.mp hline
    have hmark : IsLine (if name = choice.current then "* " else "  ") := by
      split_ifs <;> decide
    exact (Text.isLine_append _ _).mpr ⟨hmark, hnames name hname⟩
  · next name =>
      refine .bind (hact surroundings _ fun choice answer after h => ?_) fun choice hnames =>
        .pure (Output.onLines_line.mpr ?_)
      · obtain ⟨chosen, hchosen, heq⟩ := exists_of_map_ok h
        obtain ⟨rfl, rfl⟩ := Prod.mk.inj heq
        exact ⟨names_select hchosen, names_select hchosen⟩
      · simp +decide only [Text.isLine_append, Text.isLine_toString, htitle, isLine_current hnames]

theorem theme_lines (inv : Invocation) : theme.PrintsLines inv :=
  fun _ _ => onChoice_lines (by decide) (by decide +kernel) onTheme_lines inv

theorem lang_lines (inv : Invocation) : lang.PrintsLines inv :=
  fun _ _ => onChoice_lines (by decide) (by decide +kernel) onLanguage_lines inv

/-! ## Sound and notifications -/

theorem changeSound_lines {surroundings : Surroundings} (change : Sound → Sound) :
    Ensures Workspace.OnLines surroundings (changeSound change) fun _ => True := by
  refine .onService fun workspace hw sound _ answer after _ => ⟨?_, trivial⟩
  exact ⟨hw.files, hw.env, hw.aliases, hw.history, hw.desktop.windows, hw.desktop.music,
    hw.desktop.theme, hw.desktop.language⟩

theorem sound_lines (inv : Invocation) : sound.PrintsLines inv := by
  intro surroundings hs
  have hshow : ∀ {x : ShellM Sound}, Ensures Workspace.OnLines surroundings x (fun _ => True) →
      Ensures Workspace.OnLines surroundings
        (do
          let sound ← x
          let state := if sound.enabled then "on" else "off"
          return .line s!"Sound {state}, volume {sound.volume}%") Output.OnLines := by
    intro x hx
    refine .bind hx fun sound _ => .pure (Output.onLines_line.mpr ?_)
    have hstate : IsLine (if sound.enabled then "on" else "off") := by
      split_ifs <;> decide
    simp only [Text.isLine_append, Text.isLine_toString]
    exact ⟨⟨⟨⟨by decide, hstate⟩, by decide⟩, Text.isLine_repr _⟩, by decide⟩
  unfold sound
  dsimp only
  split
  · exact hshow (changeSound_lines _)
  · exact hshow (changeSound_lines _)
  · exact hshow (changeSound_lines _)
  · refine .bind (.orUsage (P := fun _ => True) fun _ _ => trivial) fun word _ => ?_
    split
    · exact hshow (changeSound_lines _)
    · exact hshow (.refuse _)
  · refine .bind (.orUsage (P := fun _ => True) fun _ _ => trivial) fun word _ => ?_
    split
    · exact hshow (changeSound_lines _)
    · exact hshow (.refuse _)
  · exact hshow (changeSound_lines _)
  · exact hshow (changeSound_lines _)
  · exact hshow (.refuseUsage _)

theorem notify_lines (inv : Invocation) : notify.PrintsLines inv := by
  intro surroundings hs
  unfold notify
  dsimp only
  split
  · exact .refuseUsage _
  · refine .bind (P := fun _ => True) (.onService fun workspace hw shown _ answer after _ =>
      ⟨?_, trivial⟩) fun _ _ => .pure Output.onLines_nothing
    exact ⟨hw.files, hw.env, hw.aliases, hw.history, hw.desktop.windows, hw.desktop.music,
      hw.desktop.theme, hw.desktop.language⟩

/-! ## All of them -/

/-- The commands that print words that they are given, or keep them. -/
def wordKeepers : List String :=
  ["ls", "mkdir", "touch", "tree", "alias", "export", "which", "open"]

/-- **Each built-in command prints lines** and leaves a workspace without line feeds, if it begins
in one; those that print or keep words, if no word holds a line feed. -/
theorem commands_printLines {command : Command Handler} (h : command ∈ commands)
    (hwords : command.description.name ∈ wordKeepers → WordsOnLines inv) :
    command.PrintsLines inv := by
  simp only [commands, fileCommands, sessionCommands, filterCommands, desktopCommands,
    List.cons_append, List.nil_append, List.mem_cons, List.not_mem_nil, or_false] at h
  rcases h with rfl | rfl | rfl | rfl | rfl | rfl | rfl | rfl | rfl | rfl | rfl | rfl | rfl | rfl |
    rfl | rfl | rfl | rfl | rfl | rfl | rfl | rfl | rfl | rfl | rfl | rfl | rfl | rfl | rfl | rfl |
    rfl | rfl | rfl
  · exact pwd_lines inv
  · exact cd_lines inv
  · exact ls_lines (hwords (by decide))
  · exact cat_lines inv
  · exact mkdir_lines (hwords (by decide))
  · exact touch_lines (hwords (by decide))
  · exact stat_lines inv
  · exact find_lines inv
  · exact tree_lines (hwords (by decide))
  · exact echo_lines inv
  · exact clear_lines inv
  · exact help_lines inv
  · exact history_lines inv
  · exact alias_lines (hwords (by decide))
  · exact unalias_lines inv
  · exact export_lines (hwords (by decide))
  · exact unset_lines inv
  · exact env_lines inv
  · exact which_lines (hwords (by decide))
  · exact grep_lines inv
  · exact head_lines inv
  · exact wc_lines inv
  · exact open_lines (hwords (by decide))
  · exact close_lines inv
  · exact minimize_lines inv
  · exact maximize_lines inv
  · exact focus_lines inv
  · exact windows_lines inv
  · exact music_lines inv
  · exact theme_lines inv
  · exact sound_lines inv
  · exact lang_lines inv
  · exact notify_lines inv

end Builtin

end PocketShell
