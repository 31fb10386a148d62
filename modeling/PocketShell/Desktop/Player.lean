import PocketShell.Desktop.Error
import PocketShell.Text.Lowercase
import PocketShell.Text.Search

set_option autoImplicit false

/-! # The music player

A playlist with a cursor at the current track. Going past either end of the playlist leads
to the other end.
-/

namespace PocketShell

/-- A piece of music. -/
structure Track where
  title : String
  artist : String
deriving DecidableEq, Repr

/-- The track as it is shown. -/
def Track.text (track : Track) : String := s!"{track.artist} - {track.title}"

/-- A playlist with a cursor. -/
structure Player where
  playlist : List Track
  /-- The position of the current track, counted from zero. -/
  cursor : Nat := 0
  playing : Bool := false
deriving DecidableEq, Repr

namespace Player

/-- The playlist that is at hand without any other. -/
def defaultPlaylist : List Track :=
  [{ title := "Lo-fi Morning", artist := "Folio Sessions" },
   { title := "Night Drive", artist := "Folio Sessions" },
   { title := "Compile Time", artist := "The Borrow Checkers" }]

/-- The current track. -/
def current (player : Player) : Except DesktopError Track :=
  match player.playlist[player.cursor]? with
  | some track => .ok track
  | none => .error .emptyPlaylist

/-- Starts to play at a position of the playlist. -/
def playAt (player : Player) (cursor : Nat) : Except DesktopError (Track × Player) :=
  let player := { player with cursor, playing := true }
  player.current.map (·, player)

/-- Whether a title holds the text of a query, whatever the letter case. -/
def isHit (query : String) (track : Track) : Bool :=
  Text.contains (Text.lower track.title) (Text.lower query)

/-- Plays the current track, or the first whose title holds the query. -/
def play (player : Player) (query : Option String) : Except DesktopError (Track × Player) :=
  match query with
  | none => player.playAt player.cursor
  | some query =>
      match player.playlist.findIdx? (isHit query) with
      | some cursor => player.playAt cursor
      | none => .error (.noTrack query)

/-- Stops playing. The cursor stays. -/
def pause (player : Player) : Player := { player with playing := false }

/-- Plays the track that is `distance` places further on, round the end of the playlist. -/
def skip (player : Player) (distance : Nat) : Except DesktopError (Track × Player) :=
  if player.playlist.isEmpty then .error .emptyPlaylist
  else player.playAt ((player.cursor + distance) % player.playlist.length)

/-- Plays the next track. -/
def next (player : Player) : Except DesktopError (Track × Player) := player.skip 1

/-- Plays the track before. -/
def previous (player : Player) : Except DesktopError (Track × Player) :=
  player.skip (player.playlist.length - 1)

/-- The current track while the player is playing. -/
def nowPlaying (player : Player) : Except DesktopError (Option Track) :=
  if player.playing then player.current.map some else .ok none

end Player

end PocketShell
