import PocketShell.Proofs.Checked.Desktop

set_option autoImplicit false

/-! # Calls of the music player

A call of the player starts a track, pauses, or cannot be followed (`Player.Answers`). Where it
starts is a position of the playlist, told by the cursor and by the length of the playlist alone
(`Player.startsAt?`). So the cursor stays at a track of the playlist and the player plays only if
there is one (`Player.Ready`), which is why it always knows what it is playing.

A player that is changed in place sets its cursor before it looks the track up, and starts to play
before or after that (`Player.InPlace`). It answers and leaves the same, because the position that
it has set is one of the playlist.
-/

namespace PocketShell

/-- A call of the music player. -/
inductive PlayerCall where
  | play (query : Option String)
  | pause
  | next
  | previous
deriving DecidableEq, Repr

namespace Player

/-! ## One call -/

/-- The track that a call starts, if it starts one, and the player after it, or why it cannot be
followed. -/
def act (player : Player) : PlayerCall → Except DesktopError (Option Track × Player)
  | .play query => (player.play query).map fun (track, player) => (some track, player)
  | .pause => .ok (none, player.pause)
  | .next => player.next.map fun (track, player) => (some track, player)
  | .previous => player.previous.map fun (track, player) => (some track, player)

/-- What a call answers, and the player that it leaves: that of before if it fails. -/
def answer (player : Player) (call : PlayerCall) : Except DesktopError (Option Track) × Player :=
  match player.act call with
  | .ok (track, after) => (.ok track, after)
  | .error error => (.error error, player)

/-- The player after several calls. -/
def callAll (player : Player) (calls : List PlayerCall) : Player :=
  calls.foldl (fun player call => (player.answer call).2) player

/-- The position at which a call starts to play, if it starts at all. -/
def startsAt? (player : Player) : PlayerCall → Option Nat
  | .play none => if player.playlist = [] then none else some player.cursor
  | .play (some query) => player.playlist.findIdx? (isHit query)
  | .pause => none
  | .next =>
      if player.playlist = [] then none
      else some ((player.cursor + 1) % player.playlist.length)
  | .previous =>
      if player.playlist = [] then none
      else some ((player.cursor + (player.playlist.length - 1)) % player.playlist.length)

/-- Why a call that has nothing to start cannot be followed. -/
def refusal : PlayerCall → DesktopError
  | .play (some query) => .noTrack query
  | .play none | .pause | .next | .previous => .emptyPlaylist

/-- **What a call can come to.** -/
inductive Answers (player : Player) : PlayerCall → Except DesktopError (Option Track) × Player → Prop
  | starts {call : PlayerCall} {cursor : Nat} (h : player.startsAt? call = some cursor)
      (hlt : cursor < player.playlist.length) :
      Answers player call
        (.ok (some player.playlist[cursor]), { player with cursor, playing := true })
  | pauses : Answers player .pause (.ok none, { player with playing := false })
  | fails {call : PlayerCall} (h : player.startsAt? call = none) (hne : call ≠ .pause) :
      Answers player call (.error (refusal call), player)

variable {player : Player} {call : PlayerCall} {cursor : Nat}

theorem InRange.lt (h : player.InRange) (hne : player.playlist ≠ []) :
    player.cursor < player.playlist.length := by
  rcases h with hzero | hlt
  · rw [hzero]
    exact List.length_pos_of_ne_nil hne
  · exact hlt

/-- **A call starts at a track of the playlist.** -/
theorem lt_of_startsAt? (h : player.InRange) (hstart : player.startsAt? call = some cursor) :
    cursor < player.playlist.length := by
  have hmod : ∀ n, player.playlist ≠ [] → n % player.playlist.length < player.playlist.length :=
    fun n hne => Nat.mod_lt n (List.length_pos_of_ne_nil hne)
  cases call with
  | play query =>
      cases query with
      | none =>
          rw [startsAt?] at hstart
          split_ifs at hstart with hempty
          exact Option.some.inj hstart ▸ h.lt hempty
      | some query => exact (List.findIdx?_eq_some_iff_getElem.mp hstart).1
  | pause => cases hstart
  | next | previous =>
      rw [startsAt?] at hstart
      split_ifs at hstart with hempty
      exact Option.some.inj hstart ▸ hmod _ hempty

/-- A call that starts nothing meets an empty playlist, or no track that its query is for. -/
theorem startsAt?_eq_none_iff (hne : call ≠ .pause) :
    player.startsAt? call = none ↔ player.playlist = [] ∨
      ∃ query, call = .play (some query) ∧ ∀ track ∈ player.playlist, isHit query track = false := by
  cases call with
  | play query =>
      cases query with
      | none => simp [startsAt?]
      | some query =>
          rw [startsAt?, List.findIdx?_eq_none_iff]
          constructor
          · exact fun hnone => .inr ⟨query, rfl, hnone⟩
          · rintro (hempty | ⟨other, hother, hnone⟩)
            · simp [hempty]
            · obtain rfl : query = other := by simpa using hother
              exact hnone
  | pause => exact absurd rfl hne
  | next | previous => simp [startsAt?]

theorem playAt_of_lt (hlt : cursor < player.playlist.length) :
    player.playAt cursor
      = .ok (player.playlist[cursor], { player with cursor, playing := true }) := by
  simp only [playAt, current, List.getElem?_eq_getElem hlt]
  rfl

theorem playAt_of_nil (h : player.playlist = []) : player.playAt cursor = .error .emptyPlaylist := by
  simp only [playAt, current, h]
  rfl

/-- **A call that does not pause plays at its position**, or is refused if it has none. -/
theorem act_eq (hne : call ≠ .pause) :
    player.act call = match player.startsAt? call with
      | some cursor => (player.playAt cursor).map fun (track, after) => (some track, after)
      | none => .error (refusal call) := by
  cases call with
  | play query =>
      cases query with
      | none =>
          rw [act, play, startsAt?]
          split_ifs with hempty
          · rw [playAt_of_nil hempty]
            rfl
          · rfl
      | some query =>
          rw [act, play, startsAt?]
          cases player.playlist.findIdx? (isHit query) <;> rfl
  | pause => exact absurd rfl hne
  | next | previous =>
      simp only [act, next, previous, skip, startsAt?, List.isEmpty_iff]
      split_ifs <;> rfl

theorem answers (h : player.InRange) (call : PlayerCall) :
    player.Answers call (player.answer call) := by
  by_cases hpause : call = .pause
  · rw [hpause]
    exact .pauses
  · cases hstart : player.startsAt? call with
    | none =>
        rw [answer, act_eq hpause, hstart]
        exact .fails hstart hpause
    | some cursor =>
        have hlt := lt_of_startsAt? h hstart
        rw [answer, act_eq hpause, hstart]
        simp only [playAt_of_lt hlt]
        exact .starts hstart hlt

/-- A call comes to one thing only. -/
theorem Answers.unique {first second : Except DesktopError (Option Track) × Player}
    (h : player.Answers call first) (h' : player.Answers call second) : first = second := by
  cases h with
  | starts hstart hlt =>
      cases h' with
      | starts hstart' hlt' =>
          obtain rfl := Option.some.inj (hstart.symm.trans hstart')
          rfl
      | pauses => cases hstart
      | fails hnone hne => exact absurd (hstart.symm.trans hnone) nofun
  | pauses =>
      cases h' with
      | starts hstart hlt => cases hstart
      | pauses => rfl
      | fails hnone hne => exact absurd rfl hne
  | fails hnone hne =>
      cases h' with
      | starts hstart hlt => exact absurd (hstart.symm.trans hnone) nofun
      | pauses => exact absurd rfl hne
      | fails => rfl

/-! ## What a call leaves -/

theorem playlist_answer (h : player.InRange) (call : PlayerCall) :
    (player.answer call).2.playlist = player.playlist := by
  have hanswers := player.answers h call
  generalize player.answer call = outcome at hanswers ⊢
  cases hanswers <;> rfl

/-- **A call that fails changes nothing.** -/
theorem answer_of_error (h : player.InRange) {error : DesktopError}
    (herror : (player.answer call).1 = .error error) : (player.answer call).2 = player := by
  have hanswers := player.answers h call
  generalize player.answer call = outcome at hanswers herror ⊢
  cases hanswers with
  | starts | pauses => cases herror
  | fails => rfl

/-- **A call fails exactly if it does not pause and has nothing to play**: the playlist is empty, or
none of its titles holds the query. -/
theorem exists_error_iff (h : player.InRange) (call : PlayerCall) :
    (∃ error, (player.answer call).1 = .error error) ↔ call ≠ .pause ∧
      (player.playlist = [] ∨ ∃ query, call = .play (some query) ∧
        ∀ track ∈ player.playlist, isHit query track = false) := by
  have hanswers := player.answers h call
  generalize player.answer call = outcome at hanswers ⊢
  constructor
  · rintro ⟨error, herror⟩
    cases hanswers with
    | starts | pauses => cases herror
    | fails hnone hne => exact ⟨hne, (startsAt?_eq_none_iff hne).mp hnone⟩
  · rintro ⟨hne, hnothing⟩
    have hnone := (startsAt?_eq_none_iff hne).mpr hnothing
    cases hanswers with
    | starts hstart hlt => exact absurd (hstart.symm.trans hnone) nofun
    | pauses => exact absurd rfl hne
    | fails => exact ⟨_, rfl⟩

/-- **What every call keeps**: the cursor is at a track, and the player plays only if there is
one. -/
structure Ready (player : Player) : Prop where
  inRange : player.InRange
  playlist_ne_nil : player.playing = true → player.playlist ≠ []

namespace Ready

theorem answer (h : player.Ready) (call : PlayerCall) : (player.answer call).2.Ready := by
  have hanswers := player.answers h.inRange call
  generalize player.answer call = outcome at hanswers ⊢
  cases hanswers with
  | starts hstart hlt =>
      exact ⟨.inr hlt, fun _ => List.ne_nil_of_length_pos (Nat.zero_lt_of_lt hlt)⟩
  | pauses => exact ⟨h.inRange, fun hplaying => nomatch hplaying⟩
  | fails => exact h

theorem callAll (h : player.Ready) (calls : List PlayerCall) : (player.callAll calls).Ready := by
  induction calls generalizing player with
  | nil => exact h
  | cons call calls ih => exact ih (h.answer call)

theorem playlist_callAll (h : player.Ready) (calls : List PlayerCall) :
    (player.callAll calls).playlist = player.playlist := by
  induction calls generalizing player with
  | nil => rfl
  | cons call calls ih => exact (ih (h.answer call)).trans (playlist_answer h.inRange call)

/-- **A player always knows what it is playing.** -/
theorem exists_nowPlaying (h : player.Ready) : ∃ current, player.nowPlaying = .ok current := by
  rw [nowPlaying]
  split_ifs with hplaying
  · have hlt := h.inRange.lt (h.playlist_ne_nil hplaying)
    exact ⟨some player.playlist[player.cursor], by rw [current, List.getElem?_eq_getElem hlt]; rfl⟩
  · exact ⟨none, rfl⟩

end Ready

/-- A player that has not been asked anything. -/
theorem ready_start (playlist : List Track) : ({ playlist } : Player).Ready :=
  ⟨.inl rfl, fun hplaying => nomatch hplaying⟩

/-! ## Round the playlist -/

theorem answer_of_startsAt? (h : player.InRange) (hstart : player.startsAt? call = some cursor) :
    (player.answer call).2 = { player with cursor, playing := true } :=
  congrArg Prod.snd ((player.answers h call).unique (.starts hstart (lt_of_startsAt? h hstart)))

theorem answer_of_nil (hempty : player.playlist = []) (call : PlayerCall) (hne : call ≠ .pause) :
    (player.answer call).2 = player := by
  have hnone : player.startsAt? call = none := (startsAt?_eq_none_iff hne).mpr (.inl hempty)
  rw [answer, act_eq hne, hnone]

/-- **A call goes on** round the playlist by a distance that the length of the playlist tells. -/
structure GoesOn (call : PlayerCall) (distance : Nat → Nat) : Prop where
  ne_pause : call ≠ .pause
  startsAt? : ∀ player : Player, player.playlist ≠ [] → player.startsAt? call
    = some ((player.cursor + distance player.playlist.length) % player.playlist.length)

theorem goesOn_next : GoesOn .next fun _ => 1 := ⟨nofun, fun _ hne => if_neg hne⟩

theorem goesOn_previous : GoesOn .previous (· - 1) := ⟨nofun, fun _ hne => if_neg hne⟩

theorem GoesOn.answer {distance : Nat → Nat} (hcall : GoesOn call distance) (h : player.InRange)
    (hne : player.playlist ≠ []) :
    (player.answer call).2 = { player with
      cursor := (player.cursor + distance player.playlist.length) % player.playlist.length
      playing := true } :=
  answer_of_startsAt? h (hcall.startsAt? player hne)

/-- **Two calls whose distances make up the whole playlist** lead back. -/
theorem GoesOn.cursor_there_and_back {first second : PlayerCall} {there back : Nat → Nat}
    (hthere : GoesOn first there) (hback : GoesOn second back)
    (hwhole : ∀ length, 0 < length → there length + back length = length) (h : player.Ready) :
    (player.callAll [first, second]).cursor = player.cursor := by
  show ((player.answer first).2.answer second).2.cursor = player.cursor
  by_cases hempty : player.playlist = []
  · -- both are refused
    rw [answer_of_nil hempty first hthere.ne_pause, answer_of_nil hempty second hback.ne_pause]
  · have hlength := List.length_pos_of_ne_nil hempty
    have hready := h.answer first
    rw [hthere.answer h.inRange hempty] at hready ⊢
    rw [hback.answer hready.inRange hempty]
    generalize hsize : player.playlist.length = length at hlength
    calc ((player.cursor + there length) % length + back length) % length
        = (player.cursor + (there length + back length)) % length := by
          rw [Nat.mod_add_mod, Nat.add_assoc]
      _ = player.cursor % length := by rw [hwhole length hlength, Nat.add_mod_right]
      _ = player.cursor := Nat.mod_eq_of_lt (hsize ▸ h.inRange.lt hempty)

/-- **The next track and then the one before** is the same track. -/
theorem cursor_next_previous (h : player.Ready) :
    (player.callAll [.next, .previous]).cursor = player.cursor :=
  goesOn_next.cursor_there_and_back goesOn_previous (fun _ => Nat.add_sub_cancel') h

/-- **The track before and then the next one** is the same track. -/
theorem cursor_previous_next (h : player.Ready) :
    (player.callAll [.previous, .next]).cursor = player.cursor :=
  goesOn_previous.cursor_there_and_back goesOn_next (fun _ => Nat.sub_add_cancel) h

/-- Some tracks further on, round the end of the playlist. -/
theorem cursor_nexts (h : player.Ready) (hne : player.playlist ≠ []) (n : Nat) :
    (player.callAll (List.replicate n .next)).cursor
      = (player.cursor + n) % player.playlist.length := by
  induction n generalizing player with
  | zero => exact (Nat.mod_eq_of_lt (h.inRange.lt hne)).symm
  | succ n ih =>
      have hnext := goesOn_next.answer h.inRange hne
      show ((player.answer .next).2.callAll (List.replicate n .next)).cursor = _
      rw [ih (h.answer .next) (by rwa [hnext]), hnext]
      show ((player.cursor + 1) % player.playlist.length + n) % player.playlist.length = _
      rw [Nat.mod_add_mod, Nat.add_right_comm, Nat.add_assoc]

/-- **Once round the playlist** is the same track. -/
theorem cursor_round (h : player.Ready) (hne : player.playlist ≠ []) :
    (player.callAll (List.replicate player.playlist.length .next)).cursor = player.cursor := by
  rw [cursor_nexts h hne, Nat.add_mod_right, Nat.mod_eq_of_lt (h.inRange.lt hne)]

/-! ## Calls in place -/

namespace InPlace

/-- Starts to play the current track, if there is one. -/
def start (player : Player) : Except DesktopError Track × Player :=
  match player.current with
  | .ok track => (.ok track, { player with playing := true })
  | .error error => (.error error, player)

/-- Plays the current track, or puts the cursor at the first whose title holds the query and plays
that. -/
def play (player : Player) : Option String → Except DesktopError Track × Player
  | none => start player
  | some query =>
      match player.playlist.findIdx? (isHit query) with
      | some cursor => start { player with cursor }
      | none => (.error (.noTrack query), player)

/-- Puts the cursor at the next track or at the one before, plays, and looks up what. -/
def step (player : Player) (forward : Bool) : Except DesktopError Track × Player :=
  let length := player.playlist.length
  if length = 0 then (.error .emptyPlaylist, player)
  else
    let cursor :=
      if forward then (player.cursor + 1) % length else (player.cursor + length - 1) % length
    let player := { player with cursor, playing := true }
    (player.current, player)

/-- Does what a call asks for. -/
def perform (player : Player) : PlayerCall → Except DesktopError (Option Track) × Player
  | .play query => (play player query).map (·.map some) id
  | .pause => (.ok none, { player with playing := false })
  | .next => (step player true).map (·.map some) id
  | .previous => (step player false).map (·.map some) id

theorem start_of_lt (hlt : cursor < player.playlist.length) :
    start { player with cursor }
      = (.ok player.playlist[cursor], { player with cursor, playing := true }) := by
  simp only [start, current, List.getElem?_eq_getElem hlt]

theorem start_of_nil (hempty : player.playlist = []) :
    start player = (.error .emptyPlaylist, player) := by
  simp only [start, current, hempty, List.getElem?_nil]

/-- **A step in place** finds the track that it has put the cursor at. -/
theorem step_eq (forward : Bool) :
    step player forward
      = if player.playlist = [] then (.error .emptyPlaylist, player)
        else start { player with
          cursor := (player.cursor + if forward then 1 else player.playlist.length - 1)
            % player.playlist.length } := by
  rw [step]
  by_cases hempty : player.playlist = []
  · rw [if_pos hempty, if_pos (List.length_eq_zero_iff.mpr hempty)]
  · have hlength := List.length_pos_of_ne_nil hempty
    have hcursor : (if forward then (player.cursor + 1) % player.playlist.length
          else (player.cursor + player.playlist.length - 1) % player.playlist.length)
        = (player.cursor + if forward then 1 else player.playlist.length - 1)
          % player.playlist.length := by
      cases forward with
      | false => exact congrArg (· % _) (Nat.add_sub_assoc hlength _)
      | true => rfl
    -- a position modulo the length is one of the playlist, so the look-up after it cannot fail
    rw [if_neg hempty, if_neg hlength.ne', hcursor, start_of_lt (Nat.mod_lt _ hlength)]
    simp only [current, List.getElem?_eq_getElem (Nat.mod_lt _ hlength)]

/-- **A call in place that does not pause** starts at its position, or is refused if it has none. -/
theorem perform_eq (hne : call ≠ .pause) :
    perform player call = match player.startsAt? call with
      | some cursor => (start { player with cursor }).map (·.map some) id
      | none => (.error (refusal call), player) := by
  cases call with
  | play query =>
      cases query with
      | none =>
          rw [perform, play, startsAt?]
          split_ifs with hempty
          · rw [start_of_nil hempty]
            rfl
          · rfl
      | some query =>
          rw [perform, play, startsAt?]
          cases player.playlist.findIdx? (isHit query) <;> rfl
  | pause => exact absurd rfl hne
  | next | previous =>
      rw [perform, step_eq, startsAt?]
      by_cases hempty : player.playlist = []
      · rw [if_pos hempty, if_pos hempty]
        rfl
      · rw [if_neg hempty, if_neg hempty]
        rfl

/-- **A call in place answers and leaves the same** as the call. -/
theorem perform_eq_answer (h : player.InRange) (call : PlayerCall) :
    perform player call = player.answer call := by
  suffices player.Answers call (perform player call) from this.unique (player.answers h call)
  by_cases hpause : call = .pause
  · rw [hpause]
    exact .pauses
  · cases hstart : player.startsAt? call with
    | none =>
        rw [perform_eq hpause, hstart]
        exact .fails hstart hpause
    | some cursor =>
        have hlt := lt_of_startsAt? h hstart
        rw [perform_eq hpause, hstart]
        simp only [start_of_lt hlt]
        exact .starts hstart hlt

/-- The player that any calls in place leave. -/
theorem foldl_perform (h : player.Ready) (calls : List PlayerCall) :
    calls.foldl (fun player call => (perform player call).2) player = player.callAll calls := by
  induction calls generalizing player with
  | nil => rfl
  | cons call calls ih =>
      rw [List.foldl_cons, perform_eq_answer h.inRange, ih (h.answer call)]
      rfl

end InPlace

/-- **What any calls make of a player, and what one more call does.** After any calls the cursor is
at a track of the playlist, if it has any, and what is playing is known. A call that fails changes
nothing, and it fails exactly if it does not pause and has nothing to play: the playlist is empty, or
none of its titles holds the query. The next track and the one before undo each other, and as many
tracks further on as there are, from any track, is the same track. -/
theorem callAll_playlist_spec (playlist : List Track) (calls : List PlayerCall) :
    let player := calls.foldl (fun player call => (InPlace.perform player call).2) { playlist }
    (player = ({ playlist } : Player).callAll calls ∧ player.playlist = playlist) ∧
      (playlist ≠ [] → player.cursor < playlist.length) ∧
      (∃ current, player.nowPlaying = .ok current) ∧
      (∀ call : PlayerCall,
        let outcome := InPlace.perform player call
        outcome = player.answer call ∧
          (∀ error, outcome.1 = .error error → outcome.2 = player) ∧
          ((∃ error, outcome.1 = .error error) ↔ call ≠ .pause ∧
            (playlist = [] ∨ ∃ query, call = .play (some query) ∧
              ∀ track ∈ playlist, isHit query track = false))) ∧
      ((player.callAll [.next, .previous]).cursor = player.cursor ∧
        (player.callAll [.previous, .next]).cursor = player.cursor) ∧
      ∀ cursor < playlist.length,
        (({ player with cursor } : Player).callAll
          (List.replicate playlist.length .next)).cursor = cursor := by
  intro player
  have hrun : player = ({ playlist } : Player).callAll calls :=
    InPlace.foldl_perform (ready_start playlist) calls
  have hready : player.Ready := hrun ▸ (ready_start playlist).callAll calls
  have hplaylist : player.playlist = playlist :=
    hrun ▸ (ready_start playlist).playlist_callAll calls
  refine ⟨⟨hrun, hplaylist⟩, fun hne => ?_, hready.exists_nowPlaying, fun call => ?_,
    ⟨cursor_next_previous hready, cursor_previous_next hready⟩, fun cursor hlt => ?_⟩
  · rw [← hplaylist] at hne ⊢
    exact hready.inRange.lt hne
  · intro outcome
    have houtcome : outcome = player.answer call :=
      InPlace.perform_eq_answer hready.inRange call
    rw [houtcome, ← hplaylist]
    exact ⟨rfl, fun error => answer_of_error hready.inRange, exists_error_iff hready.inRange call⟩
  · rw [← hplaylist] at hlt ⊢
    have hne := List.ne_nil_of_length_pos (Nat.zero_lt_of_lt hlt)
    have hready : ({ player with cursor } : Player).Ready := ⟨.inr hlt, fun _ => hne⟩
    exact cursor_round hready hne

/-- Two tracks, after the one before the first was asked for. -/
theorem callAll_playlist_two :
    let playlist : List Track := [⟨"Rain", "Folio"⟩, ⟨"Night", "Folio"⟩]
    let player := ({ playlist } : Player).callAll [.previous, .pause]
    playlist ≠ [] ∧ player.cursor = 1 ∧ player.cursor < playlist.length ∧
      (({ player with cursor := 0 } : Player).callAll [.next, .next]).cursor = 0 := by
  intro playlist player
  have hne : playlist ≠ [] := by decide
  have hlt : 0 < playlist.length := by decide
  obtain ⟨⟨hrun, -⟩, hcursor, -, -, -, hround⟩ := callAll_playlist_spec playlist [.previous, .pause]
  rw [hrun] at hcursor hround
  exact ⟨hne, rfl, hcursor hne, hround 0 hlt⟩

/-- To pause is no failure, not even with an empty playlist. -/
theorem pause_with_emptyPlaylist :
    ¬ ∀ (playlist : List Track) (calls : List PlayerCall) (call : PlayerCall),
      (∃ error, ((({ playlist } : Player).callAll calls).answer call).1 = .error error) ↔
        playlist = [] ∨ ∃ query, call = .play (some query) ∧
          ∀ track ∈ playlist, isHit query track = false := by
  intro h
  obtain ⟨error, herror⟩ := (h [] [] .pause).mpr (.inl rfl)
  cases herror

end Player

end PocketShell
