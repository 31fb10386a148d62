import PocketShell.Proofs.Checked.Calendar
import PocketShell.Proofs.Checked.Desktop
import PocketShell.Proofs.Checked.Expansion
import PocketShell.Proofs.Checked.Files
import PocketShell.Proofs.Session.Cursor
import PocketShell.Proofs.Session.History

set_option autoImplicit false

/-! # No line ends a session

Whatever a user submits, and however often the history is walked through in between, no operation of
a session is out of range (`Session.never_out_of_range`). There are two kinds of reasons for it.

What is done with a text, a time or the arguments of a command is in range whatever they are
(`Checked.InRange`). What is asked of the stores of files, of the music player and of the history is
in range because of what holds in every state: the numbers of nodes are those of nodes, their times
fit into words, the cursor of the player is at a track, and that of the history is at an entry. All
but the last are kept by each command of a line (`Session.inRange_run`), and so they hold before and
after each of them.
-/

namespace PocketShell

namespace Checked

/-! ## What is always in range -/

/-- **What is done with texts, times and arguments is in range**, whatever they are. A time is held
in a word. -/
structure InRange : Prop where
  parent : ∀ path, parent path = some (Path.parent path)
  fileName : ∀ path, fileName path = some (Path.fileName path)
  childrenOf : ∀ overlay dir, childrenOf overlay dir = some (overlay.childrenOf dir)
  extension : ∀ name, extension name = some (Subtype.extension? name)
  expandHistory : ∀ line history,
    expandHistory line history = some (PocketShell.expandHistory line history)
  expandVariables : ∀ lookup text,
    expandVariables lookup text = some (PocketShell.expandVariables lookup text)
  pipelineOf : ∀ text, pipelineOf text = some (CommandLine.pipelineOf text)
  roleOf : ∀ word, roleOf word = some (WordRole.of word)
  listingForm : ∀ seconds ≤ Text.maxWord,
    listingForm seconds = some (Calendar.listingForm seconds)
  fullForm : ∀ seconds ≤ Text.maxWord, fullForm seconds = some (Calendar.fullForm seconds)
  music : ∀ inv, music inv = some (Builtin.music.action inv)
  notify : ∀ inv, notify inv = some (Builtin.notify.action inv)

theorem inRange : InRange where
  parent := parent_eq
  fileName := fileName_eq
  childrenOf := childrenOf_eq
  extension := extension_eq
  expandHistory := expandHistory_eq
  expandVariables := expandVariables_eq
  pipelineOf := pipelineOf_eq
  roleOf := roleOf_eq
  listingForm _ := listingForm_eq
  fullForm _ := fullForm_eq
  music := music_eq
  notify := notify_eq

/-! ## Walking through the history -/

variable {session : Session} {limit : Nat}

/-- Steps to the entry before. The position stays at zero when it is there. -/
def historyUp (session : Session) : Option (Option String × Session) :=
  let length := session.history.length
  if length = 0 then some (none, session)
  else do
    let position ← match session.cursor with
      | none => sub length 1
      | some position => some (position - 1)
    return (session.history[position]?, { session with cursor := some position })

/-- Steps to the entry after, or past the newest. -/
def historyDown (limit : Nat) (session : Session) : Option (Option String × Session) :=
  let length := session.history.length
  if length = 0 then some (none, session)
  else
    match session.cursor with
    | none => some (none, session)
    | some position => do
        let next ← add limit position 1
        return if next < length then
          (session.history[next]?, { session with cursor := some next })
        else (some "", { session with cursor := none })

theorem historyUp_eq (session : Session) : historyUp session = some session.historyUp := by
  rw [historyUp, Session.historyUp]
  by_cases hempty : session.history = []
  · simp [hempty]
  · have hlength : 0 < session.history.length := List.length_pos_of_ne_nil hempty
    dsimp only
    rw [if_neg (by omega), if_neg (mt List.isEmpty_iff.mp hempty)]
    cases session.cursor with
    | none =>
        dsimp only
        rw [sub_eq (by omega)]
        rfl
    | some position => rfl

theorem historyDown_eq
    (hcursor : ∀ position, session.cursor = some position → position < session.history.length)
    (hlimit : session.history.length ≤ limit) :
    historyDown limit session = some session.historyDown := by
  rw [historyDown, Session.historyDown]
  by_cases hempty : session.history = []
  · simp [hempty]
  · have hlength : 0 < session.history.length := List.length_pos_of_ne_nil hempty
    rw [if_neg (by omega), if_neg (mt List.isEmpty_iff.mp hempty)]
    cases h : session.cursor with
    | none => rfl
    | some position =>
        have hlt := hcursor position h
        dsimp only
        rw [add_eq (by omega)]
        rfl

/-! ## Submitting lines -/

/-- Writes a line to the history and runs it. -/
def enter (session : Session) (line : String) : Option (List OutputLine × Session) := do
  let rendering : Rendering := { lines := [.prompt session.prompt line] }
  let session := session.record line
  let aliased := expandAliases session.workspace.aliases session.settings.maxAliasDepth line
  match ← parse (← expandVariables session.valueOf? aliased) with
  | .error error => return session.finish (rendering.add (.error (.line error)))
  | .ok commands =>
      let (rendering, workspace) := session.runLine session.workspace rendering commands
      return { session with workspace }.finish rendering

/-- Submits a line. -/
def submit (session : Session) (input : String) : Option (List OutputLine × Session) :=
  let typed := Text.trim input
  let session := { session with cursor := none }
  if typed = "" then some (session.finish { lines := [.prompt session.prompt ""] })
  else do
    match ← expandHistory typed session.history with
    | .error reference =>
        let error := CommandError.noEvent reference
        return session.finish { lines := [.prompt session.prompt typed, .error error.message] }
    | .ok line => enter session line

theorem enter_eq (session : Session) (line : String) :
    enter session line = some (session.enter line) := by
  have hparse : parse (PocketShell.expandVariables (session.record line).valueOf?
        (expandAliases (session.record line).workspace.aliases
          (session.record line).settings.maxAliasDepth line))
      = some (CommandLine.parse (session.expand line)) := parse_eq _
  rw [enter]
  dsimp only
  simp only [expandVariables_eq, hparse, Option.bind_eq_bind, Option.bind_some]
  cases h : CommandLine.parse (session.expand line) with
  | error error =>
      rw [session.enter_of_error h]
      rfl
  | ok commands =>
      rw [session.enter_of_ok h]
      rfl

theorem submit_eq (session : Session) (input : String) :
    submit session input = some (session.submit input) := by
  rw [submit]
  dsimp only
  by_cases hblank : Text.trim input = ""
  · rw [if_pos hblank, session.submit_of_blank hblank]
    rfl
  · rw [if_neg hblank, expandHistory_eq, Option.bind_eq_bind, Option.bind_some]
    -- the history is the same without the cursor
    have hhistory : Session.history { session with cursor := none } = session.history := rfl
    rw [hhistory]
    cases h : PocketShell.expandHistory (Text.trim input) session.history with
    | error reference =>
        rw [session.submit_of_missing hblank h]
        rfl
    | ok line =>
        have hline := (session.recorded?_eq_some_iff input line).mpr ⟨hblank, h⟩
        rw [session.submit_of_some hline]
        exact enter_eq { session with cursor := none } line

/-! ## All that a user does -/

/-- The session after something that a user does. Positions in the history are held in words up to a
limit. -/
def act (limit : Nat) (session : Session) : UserAction → Option Session
  | .submit input => (submit session input).map Prod.snd
  | .historyUp => (historyUp session).map Prod.snd
  | .historyDown => (historyDown limit session).map Prod.snd

/-- The session after all that a user does. -/
def actAll (limit : Nat) (session : Session) : List UserAction → Option Session
  | [] => some session
  | action :: rest => do actAll limit (← act limit session action) rest

theorem act_eq {walk : HistoryWalk} (h : session.StandsAt walk)
    (hlimit : session.history.length ≤ limit) (action : UserAction) :
    act limit session action = some (session.act action) := by
  cases action with
  | submit input =>
      rw [act, submit_eq]
      rfl
  | historyUp =>
      rw [act, historyUp_eq]
      rfl
  | historyDown =>
      rw [act, historyDown_eq (fun _ => h.cursor_lt) hlimit]
      rfl

/-- What a user does adds at most one line to the history. -/
theorem length_history_act (h : session.registry = Builtin.registry) (action : UserAction) :
    (session.act action).history.length ≤ session.history.length + 1 := by
  cases action with
  | submit input =>
      -- the commands of a line write nothing to the history, only the line itself may be written
      rw [Session.act, session.history_submit h input, List.length_append]
      have hone : (session.recorded? input).toList.length ≤ 1 := by
        cases session.recorded? input with
        | none => exact Nat.zero_le 1
        | some line => exact le_rfl
      omega
  | historyUp =>
      rw [Session.act, Session.history_historyUp session]
      omega
  | historyDown =>
      rw [Session.act, Session.history_historyDown]
      omega

/-- **A word that counts all entries is large enough for a whole run.** -/
theorem actAll_eq (hregistry : session.registry = Builtin.registry) {walk : HistoryWalk}
    (h : session.StandsAt walk) {actions : List UserAction}
    (hlimit : session.history.length + actions.length ≤ limit) :
    actAll limit session actions = some (session.actAll actions) := by
  -- the history may grow with each action, and the limit holds for what is left of them
  induction actions generalizing session walk with
  | nil => rfl
  | cons action rest ih =>
      rw [List.length_cons] at hlimit
      obtain ⟨next, hnext⟩ := h.act action
      have hlength := length_history_act hregistry action
      rw [actAll, act_eq h (by omega), Option.bind_eq_bind, Option.bind_some]
      exact ih ((session.registry_act action).trans hregistry) hnext (by omega)

end Checked

/-! ## The workspace -/

/-- The numbers of nodes, the times and the cursor of the player are in range. -/
structure Workspace.InRange (playlist : List Track) (workspace : Workspace) : Prop where
  files : workspace.files.InRange (· ≤ Text.maxWord)
  player : workspace.PlaysInRange playlist

/-- **What is asked of the workspace is in range**: of its files, also in the midst of writes, and
of its player, as long as two playlists fit into what a word can count. -/
structure Workspace.AnswersInRange (playlist : List Track) (workspace : Workspace) : Prop where
  files : ∀ writes : List (String × Node), (∀ write ∈ writes, write.2.TimesIn (· ≤ Text.maxWord)) →
    Checked.FilesInRange (workspace.files.putAll writes)
  player : ∀ player, workspace.desktop.music = some player → player.playlist = playlist ∧
    ∀ limit, 2 * playlist.length ≤ limit →
      Checked.step limit player true = some player.next ∧
        Checked.step limit player false = some player.previous

theorem Workspace.InRange.answers {playlist : List Track} {workspace : Workspace}
    (h : workspace.InRange playlist) : workspace.AnswersInRange playlist where
  files _ hwrites := Checked.filesInRange (h.files.putAll hwrites)
  player player hplayer := by
    obtain ⟨rfl, hrange⟩ := h.player player hplayer
    exact ⟨rfl, fun limit => Checked.step_eq hrange⟩

namespace Session

variable {session : Session} {playlist : List Track} {workspace : Workspace}

/-- **Each command keeps the workspace in range**, also when it is refused or fails. -/
theorem inRange_run (hregistry : session.registry = Builtin.registry)
    (h : workspace.InRange playlist) (input : Option (List String)) (inv : Invocation) :
    (session.run workspace input inv).2.InRange playlist := by
  obtain ⟨operations, hfiles⟩ := (follows_run hregistry workspace input inv).files_eq
  refine ⟨hfiles ▸ h.files.run operations, ?_⟩
  cases hcommand : session.command? inv.name with
  | none =>
      rw [run_of_command?_eq_none hcommand]
      exact h.player
  | some command =>
      have hkeeps := Builtin.commands_keepPlayer (mem_commands_of_command? hregistry hcommand)
      rw [run, hcommand]
      dsimp only
      -- refused for its arguments or for a service that it needs, the command does not run
      split_ifs with hargs
      · exact h.player
      · split
        · exact h.player
        · exact (hkeeps playlist inv _ workspace h.player).after

/-- The workspace is in range before and after each command of a line, and after the line. -/
theorem inRange_submit (hregistry : session.registry = Builtin.registry)
    (h : session.workspace.InRange playlist) (input : String) :
    (∀ execution ∈ session.executions input,
      execution.before.InRange playlist ∧ execution.after.InRange playlist) ∧
      (session.submit input).2.workspace.InRange playlist := by
  refine (session.leads_submit input).invariant ⟨h.files, h.player⟩ ?_
  intro execution hmem hbefore
  have hafter := inRange_run hregistry hbefore execution.input execution.command
  rwa [session.isRun_executions input execution hmem] at hafter

theorem inRange_act (hregistry : session.registry = Builtin.registry)
    (h : session.workspace.InRange playlist) (action : UserAction) :
    (session.act action).workspace.InRange playlist := by
  cases action with
  | submit input => exact (inRange_submit hregistry h input).2
  | historyUp =>
      obtain ⟨cursor, hup⟩ := session.historyUp_eq
      rw [act, hup]
      exact h
  | historyDown =>
      obtain ⟨cursor, hdown⟩ := session.historyDown_eq
      rw [act, hdown]
      exact h

/-- A session starts in range, with any files, any services and the player at its first track. -/
theorem inRange_start {files : FileSystem} (h : files.Reachable)
    (htimes : files.TimesIn (· ≤ Text.maxWord)) (registry : Registry Handler)
    (desktop : Desktop) (playlist : List Track) (capabilities : List Capability)
    (settings : Settings) :
    (start registry files ({ desktop with music := some { playlist } }.only capabilities)
      settings).workspace.InRange playlist := by
  have hnumbers := h.numbersInRange
  refine ⟨⟨⟨hnumbers.index, hnumbers.children, hnumbers.paths⟩, htimes.supplied, htimes.made,
    htimes.clock, htimes.readings⟩, fun player hplayer => ?_⟩
  have hmusic : (if capabilities.contains .music then some ({ playlist } : Player) else none)
      = some player := hplayer
  split_ifs at hmusic
  obtain rfl := Option.some.inj hmusic
  exact ⟨rfl, .inl rfl⟩

/-- **No line ends a session.** With the built-in commands, whatever the files, with times that are
held in words, the services, the playlist and the settings, and whatever the user has done:

* what is done with texts, times and arguments is in range;
* so is all that the user has done, if a word can count it;
* what is asked of the workspace is in range now, and before and after each command of each line
  that may come next. -/
theorem never_out_of_range {files : FileSystem} (h : files.Reachable)
    (htimes : files.TimesIn (· ≤ Text.maxWord)) (desktop : Desktop)
    (playlist : List Track) (capabilities : List Capability) (settings : Settings)
    (actions : List UserAction) :
    let begun := start Builtin.registry files
      ({ desktop with music := some { playlist } }.only capabilities) settings
    let session := begun.actAll actions
    Checked.InRange ∧
      (∀ limit, actions.length ≤ limit → Checked.actAll limit begun actions = some session) ∧
      session.workspace.AnswersInRange playlist ∧
      ∀ input, ∀ execution ∈ session.executions input,
        execution.before.AnswersInRange playlist ∧ execution.after.AnswersInRange playlist := by
  intro begun session
  have hregistry : session.registry = Builtin.registry := registry_actAll begun actions
  have hstart : begun.workspace.InRange playlist := inRange_start h htimes _ _ _ _ _
  have hrange : session.workspace.InRange playlist :=
    begun.actAll_induction (P := fun session => session.workspace.InRange playlist)
      (fun _ hregistry h => inRange_act hregistry h) rfl hstart actions
  refine ⟨Checked.inRange, fun limit hlimit => ?_, hrange.answers, fun input execution hmem => ?_⟩
  · have hlength : begun.history.length + actions.length ≤ limit := by
      rw [show begun.history.length = 0 from rfl]
      omega
    exact Checked.actAll_eq rfl (standsAt_start _ _ _ _) hlength
  · obtain ⟨hbefore, hafter⟩ := (inRange_submit hregistry hrange input).1 execution hmem
    exact ⟨hbefore.answers, hafter.answers⟩

/-- Back from the first track over the start of the playlist, and once more by a reference to the
line, between lines whose characters take more than one byte. -/
theorem never_out_of_range_back :
    let begun := start Builtin.registry .empty
      ({ Desktop.bare with music := some { playlist := Player.defaultPlaylist } }.only [.music]) {}
    let actions : List UserAction := [.submit "music prev", .historyUp, .historyDown,
      .submit "echo $é $\x7bHOME\x7d/é | wc", .historyUp, .submit "!1"]
    let session := begun.actAll actions
    session.workspace.desktop.music
        = some { playlist := Player.defaultPlaylist, cursor := 1, playing := true } ∧
      Checked.actAll 6 begun actions = some session ∧
      session.workspace.AnswersInRange Player.defaultPlaylist := by
  intro begun actions session
  have hempty : FileSystem.ofRecord (.folder "" []) = .ok FileSystem.empty := rfl
  have hreachable : FileSystem.empty.Reachable := .start hempty "guest" 0 []
  have hroot : FileSystem.empty.base.cells
      = #[{ node := { name := "", kind := .folder }, children := [] }] := rfl
  have htimes : FileSystem.empty.TimesIn (· ≤ Text.maxWord) := by
    refine ⟨fun cell hcell => ?_, fun node hnode => ?_, Nat.zero_le _, List.forall_mem_nil _⟩
    · rw [hroot, List.mem_toArray, List.mem_singleton] at hcell
      rw [hcell]
      constructor <;> exact fun _ h => by cases h
    · exact absurd hnode (Array.not_mem_empty node)
  have hrange :=
    never_out_of_range hreachable htimes .bare Player.defaultPlaylist [.music] {} actions
  exact ⟨by decide +kernel, hrange.2.1 6 (by decide), hrange.2.2.1⟩

end Session

end PocketShell
