import PocketShell.Shell.Basic
import PocketShell.Text.Column

set_option autoImplicit false

/-! # Commands for the desktop

`open`, `close`, `minimize`, `maximize`, `focus`, `windows`, `music`, `theme`, `sound`,
`lang` and `notify`. Each of them names the service that it needs, and is refused before it
runs where the desktop does not offer it.
-/

namespace PocketShell.Builtin

open ShellM

variable {α : Type}

/-! ## Windows -/

/-- Lets the windows do something. -/
def onWindows (act : Windows → Except DesktopError (α × Windows)) : ShellM α :=
  onService .windows Desktop.windows (fun desktop windows =>
    { desktop with windows := some windows }) act

/-- A command that changes the window of one application and says so with a verb. -/
def windowCommand (name summary verb : String)
    (change : Windows → String → Except DesktopError Windows) : Command Handler :=
  let description : Description := {
    name
    summary
    usage := s!"{name} <app>"
    category := "host"
    requiresArgs := true
    needs := [.windows] }
  { description
    action := fun inv => do
      let app ← orUsage description (inv.arg? 0)
      onWindows fun windows => (change windows app).map ((), ·)
      return .line s!"{verb} {app}" }

/-- Opens a window. -/
def openWindow : Command Handler :=
  windowCommand "open" "Open an application window" "Opened" fun windows app =>
    .ok (windows.open app)

/-- Closes a window. -/
def closeWindow : Command Handler :=
  windowCommand "close" "Close an application window" "Closed" Windows.close

/-- Minimizes a window. -/
def minimizeWindow : Command Handler :=
  windowCommand "minimize" "Minimize a window" "Minimized" Windows.minimize

/-- Maximizes a window. -/
def maximizeWindow : Command Handler :=
  windowCommand "maximize" "Maximize a window" "Maximized" Windows.maximize

/-- Gives the focus to a window. -/
def focusWindow : Command Handler :=
  windowCommand "focus" "Bring a window to the front" "Focused" Windows.focus

/-- The line of an open window, with a star if it has the focus. -/
def windowLine (windows : Windows) (window : Window) : String :=
  let mark := if windows.hasFocus window then "*" else " "
  s!"{mark} {Text.alignLeft 16 window.app} {window.state.name}"

/-- Shows the open windows. -/
def windows : Command Handler where
  description := {
    name := "windows"
    summary := "List open windows"
    usage := "windows"
    category := "host"
    needs := [.windows] }
  action _ := do
    let windows ← onWindows fun windows => .ok (windows, windows)
    if windows.opened.isEmpty then return .line "No open windows"
    else return .lines (windows.opened.map (windowLine windows))

/-! ## Music -/

/-- Lets the music player do something. -/
def onPlayer (act : Player → Except DesktopError (α × Player)) : ShellM α :=
  onService .music Desktop.music (fun desktop player =>
    { desktop with music := some player }) act

/-- The line about a track that is playing. -/
def playingLine (track : Track) : String := s!"Playing: {track.text}"

/-- The lines of a playlist with their numbers, counted from `first`. Every track equal to
the current one is marked. -/
def playlistLines (current : Option Track) (first : Nat) : List Track → List String
  | [] => []
  | track :: rest =>
      let mark := if current = some track then ">" else " "
      s!"{mark} {Text.alignRight 2 (toString first)}. {track.text}" ::
        playlistLines current (first + 1) rest

/-- What is known about `music` itself. -/
def musicDescription : Description where
  name := "music"
  summary := "Control the music player"
  usage := "music [play [query]|pause|next|prev|list|status]"
  category := "host"
  examples := ["music play night", "music next", "music list"]
  needs := [.music]

/-- Plays music, or says what is playing. -/
def music : Command Handler where
  description := musicDescription
  action inv := do
    match inv.args with
    | "play" :: query =>
        let query := if query.isEmpty then none else some (Text.join " " query)
        return .line (playingLine (← onPlayer (·.play query)))
    | "pause" :: _ | "stop" :: _ =>
        onPlayer fun player => .ok ((), player.pause)
        return .line "Paused"
    | "next" :: _ => return .line (playingLine (← onPlayer Player.next))
    | "prev" :: _ | "previous" :: _ => return .line (playingLine (← onPlayer Player.previous))
    | "list" :: _ =>
        let (current, playlist) ← onPlayer fun player =>
          player.nowPlaying.map fun current => ((current, player.playlist), player)
        return .lines (playlistLines current 1 playlist)
    | [] | "status" :: _ =>
        match ← onPlayer fun player => player.nowPlaying.map (·, player) with
        | some track => return .line (playingLine track)
        | none => return .line "Nothing playing"
    | _ => refuseUsage musicDescription

/-! ## Theme and language -/

/-- Lets the theme do something. -/
def onTheme (act : Choice → Except DesktopError (α × Choice)) : ShellM α :=
  onService .theme Desktop.theme (fun desktop theme => { desktop with theme := some theme }) act

/-- Lets the language do something. -/
def onLanguage (act : Choice → Except DesktopError (α × Choice)) : ShellM α :=
  onService .language Desktop.language (fun desktop language =>
    { desktop with language := some language }) act

/-- The names of a choice, the present one starred. -/
def choiceLines (choice : Choice) : List String :=
  choice.names.map fun name => (if name = choice.current then "* " else "  ") ++ name

/-- What a command for a choice does: without an argument it shows the present choice, with
`list` all names, and with any other argument it chooses. -/
def onChoice (title : String)
    (act : (Choice → Except DesktopError (Choice × Choice)) → ShellM Choice)
    (inv : Invocation) : ShellM Output := do
  match inv.arg? 0 with
  | none =>
      let choice ← act fun choice => .ok (choice, choice)
      return .line s!"Current {title.toLower}: {choice.current}"
  | some "list" =>
      let choice ← act fun choice => .ok (choice, choice)
      return .lines (choiceLines choice)
  | some name =>
      let choice ← act fun choice => (choice.select name).map fun choice => (choice, choice)
      return .line s!"{title} set to {choice.current}"

/-- Shows, lists or switches the theme. -/
def theme : Command Handler where
  description := {
    name := "theme"
    summary := "Show, list or switch the color theme"
    usage := "theme [list|name]"
    category := "host"
    needs := [.theme] }
  action := onChoice "Theme" onTheme

/-- Shows, lists or switches the language. -/
def lang : Command Handler where
  description := {
    name := "lang"
    summary := "Show, list or switch the interface language"
    usage := "lang [list|code]"
    category := "host"
    needs := [.language] }
  action := onChoice "Language" onLanguage

/-! ## Sound -/

/-- Changes the sound and gives the sound after the change. -/
def changeSound (change : Sound → Sound) : ShellM Sound :=
  onService .sound Desktop.sound (fun desktop sound => { desktop with sound := some sound })
    fun sound => .ok (change sound, change sound)

/-- What is known about `sound` itself. -/
def soundDescription : Description where
  name := "sound"
  summary := "Toggle sound or set the volume"
  usage := "sound [on|off|volume N|status]"
  category := "host"
  needs := [.sound]

/-- The volume that a word gives; percent signs at its end are dropped. -/
def volume? (word : String) : Option Nat :=
  Text.numeral? Text.maxByte (word.toList.reverse.dropWhile (· == '%')).reverse

/-- Switches the sound on or off or sets the volume, and shows the result. -/
def sound : Command Handler where
  description := soundDescription
  action inv := do
    let sound ← match inv.args with
      | "on" :: _ => changeSound fun sound => { sound with enabled := true }
      | "off" :: _ | "mute" :: _ => changeSound fun sound => { sound with enabled := false }
      | "volume" :: rest | "vol" :: rest => do
          let word ← orUsage soundDescription rest.head?
          match volume? word with
          | some percent => changeSound (·.setVolume percent)
          | none => refuse (.invalidVolume word)
      | [] | "status" :: _ => changeSound id
      | _ => refuseUsage soundDescription
    let state := if sound.enabled then "on" else "off"
    return .line s!"Sound {state}, volume {sound.volume}%"

/-! ## Notifications -/

/-- What is known about `notify` itself. -/
def notifyDescription : Description where
  name := "notify"
  summary := "Show a desktop notification"
  usage := "notify <title> [body...]"
  category := "host"
  requiresArgs := true
  needs := [.notifications]

/-- Shows a notification. -/
def notify : Command Handler where
  description := notifyDescription
  action inv := do
    match inv.args with
    | [] => refuseUsage notifyDescription
    | title :: body =>
        onService .notifications Desktop.notifications
          (fun desktop shown => { desktop with notifications := some shown })
          fun shown => .ok ((), shown ++ [{ title, body := Text.join " " body }])
        return .nothing

/-- The commands for the desktop. -/
def desktopCommands : List (Command Handler) :=
  [openWindow, closeWindow, minimizeWindow, maximizeWindow, focusWindow, windows, music, theme,
   sound, lang, notify]

end PocketShell.Builtin
