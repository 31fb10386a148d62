import PocketShell.Desktop.Player
import PocketShell.Desktop.Windows

set_option autoImplicit false

/-! # The desktop around a shell

A desktop holds the state of each service that it offers: windows, the music player, the
theme, the sound, the language and the notifications shown so far.
-/

namespace PocketShell

/-- One of several named choices, such as the theme or the language. -/
structure Choice where
  /-- What is chosen. -/
  what : String
  names : List String
  /-- The position of the present choice, counted from zero. -/
  index : Nat := 0
deriving DecidableEq, Repr

namespace Choice

/-- The color themes. -/
def theme : Choice :=
  { what := "theme", names := ["dark", "light", "solarized", "matrix"] }

/-- The languages of the interface. -/
def language : Choice := { what := "language", names := ["en", "es", "fr", "de"] }

/-- The name of the present choice. -/
def current (choice : Choice) : String := choice.names.getD choice.index ""

/-- The text with its ASCII letters in lower case. -/
def folded (name : String) : List Char := name.toList.map Char.toLower

/-- Chooses by name. ASCII letters may be in either case. -/
def select (choice : Choice) (name : String) : Except DesktopError Choice :=
  match choice.names.findIdx? fun candidate => folded candidate == folded name with
  | some index => .ok { choice with index }
  | none => .error (.unknownChoice choice.what name)

end Choice

/-- The sound of the interface. -/
structure Sound where
  enabled : Bool := true
  /-- The volume in percent. -/
  volume : Nat := 70
deriving DecidableEq, Repr

namespace Sound

/-- Sets the volume, at most to a hundred percent. -/
def setVolume (sound : Sound) (percent : Nat) : Sound := { sound with volume := min percent 100 }

end Sound

/-- A notification that has been shown. -/
structure Notification where
  title : String
  body : String
deriving DecidableEq, Repr

/-- The services that a desktop offers, each with its state. -/
structure Desktop where
  windows : Option Windows := none
  music : Option Player := none
  theme : Option Choice := none
  sound : Option Sound := none
  language : Option Choice := none
  /-- The notifications shown so far, the latest last. -/
  notifications : Option (List Notification) := none
deriving DecidableEq, Repr

namespace Desktop

/-- The desktop that offers nothing. -/
def bare : Desktop := {}

/-- The desktop that offers everything. -/
def full : Desktop :=
  { windows := some {}
    music := some { playlist := Player.defaultPlaylist }
    theme := some .theme
    sound := some {}
    language := some .language
    notifications := some [] }

/-- Whether the desktop offers a service. -/
def has (desktop : Desktop) : Capability → Bool
  | .windows => desktop.windows.isSome
  | .music => desktop.music.isSome
  | .theme => desktop.theme.isSome
  | .sound => desktop.sound.isSome
  | .language => desktop.language.isSome
  | .notifications => desktop.notifications.isSome

/-- The desktop with only those of its services that are in a list. -/
def only (desktop : Desktop) (capabilities : List Capability) : Desktop :=
  let keep {α : Type} (capability : Capability) (state : Option α) : Option α :=
    if capabilities.contains capability then state else none
  { windows := keep .windows desktop.windows
    music := keep .music desktop.music
    theme := keep .theme desktop.theme
    sound := keep .sound desktop.sound
    language := keep .language desktop.language
    notifications := keep .notifications desktop.notifications }

/-- The notifications shown so far; none if the desktop does not show any. -/
def shown (desktop : Desktop) : List Notification := desktop.notifications.getD []

end Desktop

end PocketShell
