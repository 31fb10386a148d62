set_option autoImplicit false

/-! # Capabilities and what can go wrong with them

A desktop offers up to six capabilities to the commands of a shell. A command that needs
one which the desktop lacks is refused.
-/

namespace PocketShell

/-- The services that a desktop may offer. -/
inductive Capability where
  | windows
  | music
  | theme
  | sound
  | language
  | notifications
deriving DecidableEq, Repr

/-- What the service is called. -/
def Capability.title : Capability → String
  | windows => "window manager"
  | music => "music player"
  | theme => "theme controller"
  | sound => "sound controller"
  | language => "language controller"
  | notifications => "notifications"

/-- Why a desktop cannot do what it is asked. -/
inductive DesktopError where
  /-- The desktop does not offer the service. -/
  | unavailable (capability : Capability)
  /-- The application has no open window. -/
  | noWindow (app : String)
  /-- There is nothing to play. -/
  | emptyPlaylist
  /-- No title holds the text. -/
  | noTrack (query : String)
  /-- `what` cannot be set to `name`. -/
  | unknownChoice (what name : String)
deriving DecidableEq, Repr

/-- The error as it is shown. -/
def DesktopError.message : DesktopError → String
  | unavailable capability => s!"capability unavailable: {capability.title}"
  | noWindow app => s!"no open window: {app}"
  | emptyPlaylist => "playlist is empty"
  | noTrack query => s!"no track matching: {query}"
  | unknownChoice what name => s!"unknown {what}: {name}"

end PocketShell
