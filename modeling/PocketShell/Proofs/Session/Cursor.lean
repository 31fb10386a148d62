import PocketShell.Proofs.Session.Running

set_option autoImplicit false

/-! # Walking through the history

A user who walks through the history stands at one of its entries or at the fresh line after the
last. `HistoryWalk` is this view of the history: a position that is never behind the fresh line,
with one move up and one down. A submitted line brings the user back to the fresh line, whatever
became of the line.

A session keeps no position but a cursor, which is set at an entry only. `Session.StandsAt` ties
the two: each step in the session is the move of the same name (`StandsAt.historyUp`,
`StandsAt.historyDown`), each submitted line starts a new walk (`standsAt_submit`), and so all
answers of a session are those of the walk (`answers_eq`).
-/

namespace PocketShell

/-- A place in the history: at one of the entries, or at the fresh line after them. -/
structure HistoryWalk where
  entries : List String
  position : Nat
  position_le : position ≤ entries.length

/-- What may happen to a place in the history. -/
inductive HistoryMove where
  | up
  | down
  /-- A line has been submitted, and the entries are these now. -/
  | renew (entries : List String)

namespace HistoryWalk

/-- At the fresh line. -/
def fresh (entries : List String) : HistoryWalk := ⟨entries, entries.length, le_rfl⟩

/-- Goes to the entry before, and stays at the oldest. -/
def up (walk : HistoryWalk) : Option String × HistoryWalk :=
  if h : 0 < walk.entries.length then
    have hlt : walk.position - 1 < walk.entries.length := by
      have := walk.position_le
      omega
    (some walk.entries[walk.position - 1], ⟨walk.entries, walk.position - 1, hlt.le⟩)
  else (none, walk)

/-- Goes to the entry after, and from the newest to the fresh line; there is nothing after
that. -/
def down (walk : HistoryWalk) : Option String × HistoryWalk :=
  if h : walk.position + 1 < walk.entries.length then
    (some walk.entries[walk.position + 1], ⟨walk.entries, walk.position + 1, h.le⟩)
  else if walk.position + 1 = walk.entries.length then (some "", fresh walk.entries)
  else (none, walk)

/-- The answers to the steps among the moves. -/
def answers (walk : HistoryWalk) : List HistoryMove → List (Option String)
  | [] => []
  | .up :: rest => walk.up.1 :: walk.up.2.answers rest
  | .down :: rest => walk.down.1 :: walk.down.2.answers rest
  | .renew entries :: rest => (fresh entries).answers rest

/-- The cursor of a session at this place: there is none at the fresh line. -/
def cursor (walk : HistoryWalk) : Option Nat :=
  if walk.position < walk.entries.length then some walk.position else none

theorem cursor_fresh (entries : List String) : (fresh entries).cursor = none :=
  if_neg (lt_irrefl _)

theorem getD_cursor (walk : HistoryWalk) :
    walk.cursor.getD walk.entries.length = walk.position := by
  have := walk.position_le
  rw [cursor]
  split_ifs with h
  · rfl
  · rw [Option.getD_none]
    omega

/-! ## Moves -/

theorem up_of_empty {walk : HistoryWalk} (h : walk.entries = []) : walk.up = (none, walk) := by
  rw [up, dif_neg (by simp [h])]

theorem position_up {walk : HistoryWalk} (h : walk.entries ≠ []) :
    walk.up.2.position = walk.position - 1 := by
  rw [up, dif_pos (List.length_pos_iff.mpr h)]

theorem entries_up (walk : HistoryWalk) : walk.up.2.entries = walk.entries := by
  rw [up]
  split_ifs <;> rfl

/-- Going up always leads to an entry. -/
theorem up_fst {walk : HistoryWalk} (h : walk.entries ≠ []) :
    walk.up.1 = walk.entries[walk.position - 1]? := by
  have hpos := List.length_pos_iff.mpr h
  have hle := walk.position_le
  rw [up, dif_pos hpos, List.getElem?_eq_getElem (by omega)]

/-- **Down leads back from where an entry was left.** -/
theorem down_up {walk : HistoryWalk} (hpos : 0 < walk.position)
    (hlt : walk.position < walk.entries.length) :
    walk.up.2.down = (some walk.entries[walk.position], walk) := by
  obtain ⟨entries, position, hle⟩ := walk
  obtain ⟨before, rfl⟩ := Nat.exists_eq_succ_of_ne_zero (Nat.ne_of_gt hpos)
  have hentries : 0 < entries.length := by
    simp only at hlt
    omega
  simp only [up, dif_pos hentries, Nat.succ_eq_add_one, Nat.add_sub_cancel]
  exact dif_pos hlt

/-- **Going up many times** leads as many entries back as there are, at most. -/
theorem iterate_up (walk : HistoryWalk) (h : walk.entries ≠ []) (k : Nat) :
    ((fun w => w.up.2)^[k] walk).entries = walk.entries ∧
      ((fun w => w.up.2)^[k] walk).position = walk.position - k := by
  induction k with
  | zero => exact ⟨rfl, rfl⟩
  | succ k ih =>
      rw [Function.iterate_succ_apply', entries_up, position_up (by rwa [ih.1]), ih.2]
      exact ⟨ih.1, by omega⟩

end HistoryWalk

namespace Session

/-- The session stands at this place of its history. -/
structure StandsAt (session : Session) (walk : HistoryWalk) : Prop where
  entries_eq : walk.entries = session.history
  cursor_eq : session.cursor = walk.cursor

variable {session : Session} {walk : HistoryWalk}

/-- The cursor, if it is set, is at an entry. -/
theorem StandsAt.cursor_lt (h : session.StandsAt walk) {position : Nat}
    (hcursor : session.cursor = some position) : position < session.history.length := by
  rw [h.cursor_eq, HistoryWalk.cursor] at hcursor
  split_ifs at hcursor with hlt
  obtain rfl := Option.some.inj hcursor
  rwa [h.entries_eq] at hlt

/-! ## Steps in the history -/

theorem StandsAt.historyUp (h : session.StandsAt walk) :
    session.historyUp.1 = walk.up.1 ∧ session.historyUp.2.StandsAt walk.up.2 := by
  obtain ⟨entries, position, hle⟩ := walk
  obtain ⟨hentries, hcursor⟩ := h
  simp only at hentries
  subst hentries
  have hposition : session.cursor.getD session.history.length = position := by
    rw [hcursor]
    exact HistoryWalk.getD_cursor _
  by_cases hempty : session.history = []
  · rw [Session.historyUp, if_pos (by simp [hempty]), HistoryWalk.up_of_empty hempty]
    exact ⟨rfl, rfl, hcursor⟩
  · have hpos := List.length_pos_iff.mpr hempty
    rw [Session.historyUp, if_neg (by simpa using hempty), hposition, HistoryWalk.up, dif_pos hpos]
    have hlt : position - 1 < session.history.length := by omega
    exact ⟨List.getElem?_eq_getElem hlt, rfl, (if_pos hlt).symm⟩

theorem StandsAt.historyDown (h : session.StandsAt walk) :
    session.historyDown.1 = walk.down.1 ∧ session.historyDown.2.StandsAt walk.down.2 := by
  obtain ⟨entries, position, hle⟩ := walk
  obtain ⟨hentries, hcursor⟩ := h
  simp only at hentries
  subst hentries
  rw [HistoryWalk.cursor] at hcursor
  split_ifs at hcursor with hlt
  · -- at an entry
    simp only at hlt hcursor
    have hentries : session.history.isEmpty = false :=
      List.isEmpty_eq_false_iff.mpr (List.ne_nil_of_length_pos (by omega))
    simp only [Session.historyDown, hentries, hcursor, HistoryWalk.down]
    by_cases hnext : position + 1 < session.history.length
    · rw [if_pos hnext, dif_pos hnext]
      exact ⟨List.getElem?_eq_getElem hnext, rfl, (if_pos hnext).symm⟩
    · have hlast : position + 1 = session.history.length := by omega
      rw [if_neg hnext, dif_neg hnext, if_pos hlast]
      exact ⟨rfl, rfl, (HistoryWalk.cursor_fresh _).symm⟩
  · -- at the fresh line
    simp only at hlt hcursor
    have hnext : ¬ position + 1 < session.history.length := by omega
    have hlast : ¬ position + 1 = session.history.length := by omega
    simp only [Session.historyDown, hcursor, ite_self, HistoryWalk.down, dif_neg hnext,
      if_neg hlast]
    exact ⟨trivial, rfl, by rw [hcursor, HistoryWalk.cursor, if_neg hlt]⟩

/-- **Whatever is submitted leads back to the fresh line**, with any commands. -/
theorem standsAt_submit (session : Session) (input : String) :
    (session.submit input).2.StandsAt (.fresh (session.submit input).2.history) := by
  refine ⟨rfl, ?_⟩
  rw [HistoryWalk.cursor_fresh]
  cases h : session.recorded? input with
  | none =>
      obtain ⟨rendering, hsubmit⟩ := session.submit_of_none h
      rw [hsubmit]
      rfl
  | some line =>
      obtain ⟨workspace, scrollback, henter⟩ := enter_eq { session with cursor := none } line
      rw [session.submit_of_some h, henter]

/-! ## All answers -/

/-- The answers to the steps in the history among what a user does. -/
def answers (session : Session) : List UserAction → List (Option String)
  | [] => []
  | .submit input :: rest => (session.submit input).2.answers rest
  | .historyUp :: rest => session.historyUp.1 :: session.historyUp.2.answers rest
  | .historyDown :: rest => session.historyDown.1 :: session.historyDown.2.answers rest

/-- What a user does, as moves in the history. -/
def moves (session : Session) : List UserAction → List HistoryMove
  | [] => []
  | .submit input :: rest =>
      .renew (session.submit input).2.history :: (session.submit input).2.moves rest
  | .historyUp :: rest => .up :: session.historyUp.2.moves rest
  | .historyDown :: rest => .down :: session.historyDown.2.moves rest

/-- **All answers of a session are those of the walk.** -/
theorem StandsAt.answers_eq (h : session.StandsAt walk) (actions : List UserAction) :
    session.answers actions = walk.answers (session.moves actions) := by
  induction actions generalizing session walk with
  | nil => rfl
  | cons action rest ih =>
      cases action with
      | submit input =>
          simp only [answers, moves, HistoryWalk.answers]
          exact ih (session.standsAt_submit input)
      | historyUp =>
          simp only [answers, moves, HistoryWalk.answers, h.historyUp.1]
          rw [ih h.historyUp.2]
      | historyDown =>
          simp only [answers, moves, HistoryWalk.answers, h.historyDown.1]
          rw [ih h.historyDown.2]

theorem StandsAt.act (h : session.StandsAt walk) (action : UserAction) :
    ∃ walk, (session.act action).StandsAt walk := by
  cases action with
  | submit input => exact ⟨_, session.standsAt_submit input⟩
  | historyUp => exact ⟨_, h.historyUp.2⟩
  | historyDown => exact ⟨_, h.historyDown.2⟩

/-- **A session stands somewhere in its history at any time.** -/
theorem StandsAt.actAll (h : session.StandsAt walk) (actions : List UserAction) :
    ∃ walk, (session.actAll actions).StandsAt walk := by
  induction actions generalizing session walk with
  | nil => exact ⟨walk, h⟩
  | cons action rest ih =>
      obtain ⟨next, hnext⟩ := h.act action
      exact ih hnext

theorem standsAt_start (registry : Registry Handler) (files : FileSystem) (desktop : Desktop)
    (settings : Settings) : (start registry files desktop settings).StandsAt (.fresh []) :=
  ⟨rfl, (HistoryWalk.cursor_fresh []).symm⟩

theorem StandsAt.iterate_historyUp (h : session.StandsAt walk) (k : Nat) :
    ((fun s : Session => s.historyUp.2)^[k] session).StandsAt
      ((fun w => w.up.2)^[k] walk) := by
  induction k with
  | zero => exact h
  | succ k ih =>
      rw [Function.iterate_succ_apply', Function.iterate_succ_apply']
      exact ih.historyUp.2

/-! ## What a user meets in the history -/

theorem StandsAt.of_cursor_none (h : session.StandsAt walk) (hcursor : session.cursor = none) :
    walk.position = session.history.length := by
  rw [← walk.getD_cursor, ← h.cursor_eq, hcursor, Option.getD_none, h.entries_eq]

theorem StandsAt.of_cursor_some (h : session.StandsAt walk) {position : Nat}
    (hcursor : session.cursor = some position) : walk.position = position := by
  rw [← walk.getD_cursor, ← h.cursor_eq, hcursor, Option.getD_some]

/-- In an empty history there is nowhere to go. -/
theorem steps_of_empty (hempty : session.history = []) :
    session.historyUp = (none, session) ∧ session.historyDown = (none, session) := by
  have hnothing : session.history.isEmpty = true := List.isEmpty_iff.mpr hempty
  rw [Session.historyUp, Session.historyDown, if_pos hnothing, if_pos hnothing]
  exact ⟨rfl, rfl⟩

theorem StandsAt.historyUp_of_ne_nil (h : session.StandsAt walk) (hne : session.history ≠ []) :
    ∃ entry, session.history[walk.position - 1]? = some entry ∧
      session.historyUp.1 = some entry := by
  have hlt : walk.position - 1 < session.history.length := by
    have := walk.position_le
    have := List.length_pos_iff.mpr hne
    rw [h.entries_eq] at *
    omega
  refine ⟨_, List.getElem?_eq_getElem hlt, ?_⟩
  rw [h.historyUp.1, HistoryWalk.up_fst (by rwa [h.entries_eq]), h.entries_eq,
    List.getElem?_eq_getElem hlt]

/-- From an entry up to another and down again nothing has changed. -/
theorem StandsAt.historyDown_historyUp (h : session.StandsAt walk) {position : Nat}
    (hcursor : session.cursor = some position) (hpos : 0 < position) :
    ∃ entry, session.history[position]? = some entry ∧
      session.historyUp.2.historyDown = (some entry, session) := by
  have hlt := h.cursor_lt hcursor
  have hposition := h.of_cursor_some hcursor
  have hdown := h.historyUp.2.historyDown
  rw [HistoryWalk.down_up (by omega) (by rw [h.entries_eq]; omega)] at hdown
  refine ⟨_, List.getElem?_eq_getElem hlt, Prod.ext ?_ ?_⟩
  · rw [hdown.1]
    simp only [hposition, h.entries_eq]
  · -- only the cursor could have changed, and it is where it was
    obtain ⟨up, hup⟩ := session.historyUp_eq
    obtain ⟨down, hlast⟩ := session.historyUp.2.historyDown_eq
    have hsame := hdown.2.cursor_eq
    rw [← h.cursor_eq, hlast] at hsame
    rw [hlast, hup, show down = session.cursor from hsame]

/-- Going up again and again from the fresh line. -/
theorem StandsAt.historyUp_iterate (h : session.StandsAt walk) (hne : session.history ≠ [])
    (hcursor : session.cursor = none) (k : Nat) :
    ∃ entry, session.history[session.history.length - min (k + 1) session.history.length]?
        = some entry ∧
      ((fun s : Session => s.historyUp.2)^[k] session).historyUp.1 = some entry := by
  have hk := h.iterate_historyUp k
  obtain ⟨hentries, hposition⟩ := walk.iterate_up (by rwa [h.entries_eq]) k
  have hhistory : ((fun s : Session => s.historyUp.2)^[k] session).history = session.history := by
    rw [← hk.entries_eq, hentries, h.entries_eq]
  obtain ⟨entry, hentry, hup⟩ := hk.historyUp_of_ne_nil (by rwa [hhistory])
  refine ⟨entry, ?_, hup⟩
  rw [← hentry, hhistory, hposition, h.of_cursor_none hcursor]
  congr 1
  have := List.length_pos_iff.mpr hne
  omega

/-- **Walking through the history is a walk between its oldest entry and the fresh line.** At any
time and with any commands, the cursor is at an entry if it is set, the session stands at a place
of the history, all answers from then on are those of the walk from there, and each submitted line
leads back to the fresh line. In an empty history there is nowhere to go; in any other, up always
gives an entry. Down after up between two entries gives the entry that was left, and the `k`-th up
from the fresh line gives the `k`-th entry from the end, or the oldest if there are fewer. -/
theorem history_walk (registry : Registry Handler) (files : FileSystem) (desktop : Desktop)
    (settings : Settings) (actions : List UserAction) :
    let session := (start registry files desktop settings).actAll actions
    let length := session.history.length
    (∀ position, session.cursor = some position → position < length) ∧
    (∃ walk, session.StandsAt walk ∧
      ∀ later, session.answers later = walk.answers (session.moves later)) ∧
    (∀ input, (session.submit input).2.StandsAt (.fresh (session.submit input).2.history)) ∧
    (session.history = [] →
      session.historyUp = (none, session) ∧ session.historyDown = (none, session)) ∧
    (session.history ≠ [] → ∃ entry,
      session.history[session.cursor.getD length - 1]? = some entry ∧
        session.historyUp.1 = some entry) ∧
    (∀ position, session.cursor = some position → 0 < position → ∃ entry,
      session.history[position]? = some entry ∧
        session.historyUp.2.historyDown = (some entry, session)) ∧
    (session.history ≠ [] → session.cursor = none → ∀ k, 1 ≤ k → ∃ entry,
      session.history[length - min k length]? = some entry ∧
        ((fun s : Session => s.historyUp.2)^[k - 1] session).historyUp.1 = some entry) := by
  intro session length
  obtain ⟨walk, hwalk⟩ := (standsAt_start registry files desktop settings).actAll actions
  have hposition : walk.position = session.cursor.getD length := by
    rw [hwalk.cursor_eq, ← walk.getD_cursor, hwalk.entries_eq]
  refine ⟨fun _ => hwalk.cursor_lt, ⟨walk, hwalk, hwalk.answers_eq⟩, session.standsAt_submit,
    steps_of_empty, ?_, fun _ => hwalk.historyDown_historyUp, ?_⟩
  · intro hne
    rw [← hposition]
    exact hwalk.historyUp_of_ne_nil hne
  · intro hne hcursor k hk
    obtain ⟨k, rfl⟩ := Nat.exists_eq_add_of_le' hk
    exact hwalk.historyUp_iterate hne hcursor k

/-- Two entries and the fresh line, with a line of white space and a failing one in between. -/
theorem history_walk_two :
    let session := (start Builtin.registry .empty .bare {}).actAll
      [.submit "one", .historyUp, .submit "  ", .submit "echo two"]
    session.history = ["one", "echo two"] ∧ session.cursor = none ∧
      session.answers [.historyUp, .historyUp, .historyUp, .historyDown, .historyDown, .historyDown]
        = [some "echo two", some "one", some "one", some "echo two", some "", none] ∧
      session.historyUp.2.historyUp.1 = some "one" := by
  intro session
  have h := history_walk Builtin.registry .empty .bare {}
    [.submit "one", .historyUp, .submit "  ", .submit "echo two"]
  have hhistory : session.history = ["one", "echo two"] := by decide +kernel
  have hcursor : session.cursor = none := by decide +kernel
  obtain ⟨-, -, -, -, -, -, hups⟩ := h
  have hne : session.history ≠ [] := by
    rw [hhistory]
    decide
  obtain ⟨entry, hentry, hup⟩ := hups hne hcursor 2 (by decide)
  rw [show history _ = _ from hhistory] at hentry
  obtain rfl : "one" = entry := Option.some.inj hentry
  exact ⟨hhistory, hcursor, by decide +kernel, hup⟩

end Session

end PocketShell
