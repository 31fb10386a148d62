import PocketShell.Proofs.Desktop.Order

set_option autoImplicit false

/-! # The focus on a minimized window

To minimize a window takes the focus from it, and to focus or maximize a window shows it again.
Two calls do not look whether the window that they give the focus to is minimized: opening a window
that is open already, and closing the one with the focus (`FocusesMinimized`). So a minimized window
is shown as the one with the focus exactly if the last call that has moved the focus was one of
these (`focusMinimized_iff`).
-/

namespace PocketShell.Windows

variable {ws : Windows} {calls : List WindowCall} {call : WindowCall}

/-! ## Where the focus goes -/

/-- Whether a call moves the focus, which may be to the window that has it already. -/
def MovesFocus (ws : Windows) (call : WindowCall) : Prop :=
  match call.action with
  | .open => True
  | .maximize | .focus => call.app ∈ ws.apps
  | .close | .minimize => ws.focused = some call.app

instance (ws : Windows) : (call : WindowCall) → Decidable (ws.MovesFocus call)
  | ⟨.open, _⟩ => inferInstanceAs (Decidable True)
  | ⟨.maximize, app⟩ | ⟨.focus, app⟩ => inferInstanceAs (Decidable (app ∈ ws.apps))
  | ⟨.close, app⟩ | ⟨.minimize, app⟩ => inferInstanceAs (Decidable (ws.focused = some app))

/-- The application that a call which moves the focus gives it to. -/
def focusTarget (ws : Windows) (call : WindowCall) : Option String :=
  match call.action with
  | .open | .maximize | .focus => some call.app
  | .close => (ws.others call.app).getLast?.map Window.app
  | .minimize => none

/-- **Who has the focus after a call.** -/
theorem focused_answer (h : ∀ app, ws.focused = some app → app ∈ ws.apps) (call : WindowCall) :
    (ws.answer call).2.focused
      = if ws.MovesFocus call then ws.focusTarget call else ws.focused := by
  have hanswers := ws.answers call
  generalize ws.answer call = result at hanswers ⊢
  cases hanswers with
  | opens hmem | reopens hmem => exact (if_pos trivial).symm
  | closes hmem | minimizes hmem => rfl
  | maximizes hmem => exact (if_pos hmem).symm
  | restores hstate | focuses hstate hne => exact (if_pos (mem_of_state? hstate)).symm
  | @fails action app hmem hne =>
      refine (if_neg fun hmoves => ?_).symm
      cases action with
      | «open» => exact hne rfl
      | maximize | focus => exact hmem hmoves
      | close | minimize => exact hmem (h app hmoves)

/-! ## Minimized windows -/

/-- Whether a minimized window is shown as the one with the focus. -/
def FocusMinimized (ws : Windows) : Prop :=
  ∃ window ∈ ws.opened, ws.hasFocus window = true ∧ window.state = .minimized

instance (ws : Windows) : Decidable ws.FocusMinimized :=
  inferInstanceAs (Decidable (∃ window ∈ ws.opened, _ ∧ _))

/-- Whether a call gives the focus to a minimized window: it opens a window that is open already and
minimized, or it closes the window with the focus, and of those left the last one is minimized. -/
def FocusesMinimized (ws : Windows) (call : WindowCall) : Prop :=
  match call.action with
  | .open => ws.state? call.app = some .minimized
  | .close => ws.focused = some call.app ∧
      (ws.others call.app).getLast?.map Window.state = some .minimized
  | .minimize | .maximize | .focus => False

/-- The state of a window that stands among the windows. -/
theorem state?_of_mem (h : ws.apps.Nodup) {window : Window} (hmem : window ∈ ws.opened) :
    ws.state? window.app = some window.state := by
  have happ : window.app ∈ ws.apps := List.mem_map_of_mem hmem
  obtain ⟨found, hfound⟩ := Option.isSome_iff_exists.mp (window?_isSome_iff.mpr happ)
  have hsame : found = window :=
    List.inj_on_of_nodup_map h (List.mem_of_find?_eq_some hfound) hmem (app_of_window? hfound)
  rw [state?, hfound, hsame, Option.map_some]

theorem focusMinimized_iff_state? (h : ws.apps.Nodup) :
    ws.FocusMinimized ↔ ws.focused.bind ws.state? = some .minimized := by
  rw [Option.bind_eq_some_iff]
  constructor
  · rintro ⟨window, hmem, hfocus, hstate⟩
    refine ⟨window.app, by simpa [hasFocus] using hfocus, ?_⟩
    rw [state?_of_mem h hmem, hstate]
  · rintro ⟨app, hfocused, hstate⟩
    obtain ⟨window, hwindow, hminimized⟩ := Option.map_eq_some_iff.mp hstate
    refine ⟨window, List.mem_of_find?_eq_some hwindow, ?_, hminimized⟩
    rw [hasFocus, hfocused, app_of_window? hwindow, beq_self_eq_true]

/-- **A call that moves the focus** decides whether it is on a minimized window. -/
theorem focusMinimized_of_moves (h : Orderly calls ws) (hmoves : ws.MovesFocus call) :
    (ws.answer call).2.FocusMinimized ↔ ws.FocusesMinimized call := by
  have hfocused := (focused_answer h.focused_mem call).trans (if_pos hmoves)
  rw [focusMinimized_iff_state? (h.answer call).nodup, hfocused]
  obtain ⟨action, app⟩ := call
  have hself := (state?_answer ws ⟨action, app⟩ app).trans (if_pos rfl)
  cases action with
  | «open» =>
      show (ws.answer ⟨.open, app⟩).2.state? app = some .minimized ↔ ws.state? app = some .minimized
      rw [hself]
      cases ws.state? app with
      | none => simp [shown]
      | some state => exact Iff.rfl
  | close =>
      show ((ws.others app).getLast?.map Window.app).bind _ = some WindowState.minimized ↔ _ ∧ _
      rw [and_iff_right (show ws.focused = some app from hmoves)]
      cases hlast : (ws.others app).getLast? with
      | none => simp
      | some window =>
          obtain ⟨hmem, hother⟩ := List.mem_filter.mp (List.mem_of_getLast? hlast)
          rw [Option.map_some, Option.map_some, Option.bind_some, state?_answer,
            if_neg (bne_iff_ne.mp hother), state?_of_mem h.nodup hmem]
  | minimize => exact iff_of_false (fun hnone => nomatch hnone) id
  | maximize =>
      refine iff_of_false (fun hminimized => ?_) id
      obtain ⟨state, -, hstate⟩ := Option.map_eq_some_iff.mp (hself.symm.trans hminimized)
      cases hstate
  | focus =>
      refine iff_of_false (fun hminimized => ?_) id
      obtain ⟨state, -, hstate⟩ := Option.map_eq_some_iff.mp (hself.symm.trans hminimized)
      split_ifs at hstate with hwas
      exact hwas hstate

/-- **Any other call** leaves this as it is: it does not touch the window with the focus. -/
theorem focusMinimized_of_not_moves (h : Orderly calls ws) (hmoves : ¬ ws.MovesFocus call) :
    (ws.answer call).2.FocusMinimized ↔ ws.FocusMinimized := by
  have hfocused := (focused_answer h.focused_mem call).trans (if_neg hmoves)
  rw [focusMinimized_iff_state? (h.answer call).nodup, focusMinimized_iff_state? h.nodup, hfocused,
    Option.bind_eq_some_iff, Option.bind_eq_some_iff]
  refine exists_congr fun app => and_congr_right fun happ => ?_
  have hne : app ≠ call.app := by
    rintro rfl
    refine hmoves ?_
    obtain ⟨action, app⟩ := call
    cases action with
    | «open» => trivial
    | maximize | focus => exact h.focused_mem app happ
    | close | minimize => exact happ
  rw [state?_answer, if_neg hne]

/-! ## Any calls -/

/-- Each of several calls with the windows that it meets. -/
def steps (ws : Windows) : List WindowCall → List (Windows × WindowCall)
  | [] => []
  | call :: rest => (ws, call) :: steps (ws.answer call).2 rest

theorem steps_concat (ws : Windows) (calls : List WindowCall) (call : WindowCall) :
    ws.steps (calls ++ [call]) = ws.steps calls ++ [(ws.callAll calls, call)] := by
  induction calls generalizing ws with
  | nil => rfl
  | cons first rest ih =>
      rw [List.cons_append, steps, ih, steps, List.cons_append]
      rfl

/-- The last of several calls that has moved the focus, with the windows that it has met. -/
def lastMove (calls : List WindowCall) : Option (Windows × WindowCall) :=
  ((steps {} calls).filter fun step => step.1.MovesFocus step.2).getLast?

theorem lastMove_concat (calls : List WindowCall) (call : WindowCall) :
    lastMove (calls ++ [call])
      = if (({} : Windows).callAll calls).MovesFocus call
        then some (({} : Windows).callAll calls, call) else lastMove calls := by
  rw [lastMove, lastMove, steps_concat, List.filter_append, List.getLast?_append,
    List.filter_singleton]
  split_ifs with hmoves
  · simp [hmoves]
  · simp [hmoves]

/-- **When the focus is on a minimized window.** After any calls it is exactly if the last call that
has moved the focus has given it to a minimized window. -/
theorem focusMinimized_iff (calls : List WindowCall) :
    (({} : Windows).callAll calls).FocusMinimized ↔
      ∃ step, lastMove calls = some step ∧ step.1.FocusesMinimized step.2 := by
  induction calls using List.reverseRecOn with
  | nil => simp [callAll, FocusMinimized, lastMove, steps]
  | append_singleton calls call ih =>
      have horder := orderly_callAll calls
      rw [callAll_concat, lastMove_concat]
      split_ifs with hmoves
      · rw [focusMinimized_of_moves horder hmoves]
        simp
      · rw [focusMinimized_of_not_moves horder hmoves, ih]

/-- A window that is minimized and opened again has the focus and stays minimized. So does a
minimized window that receives the focus when another one is closed. -/
theorem focus_on_minimized :
    let reopened := ({} : Windows).callAll [⟨.open, "a"⟩, ⟨.minimize, "a"⟩, ⟨.open, "a"⟩]
    let left := ({} : Windows).callAll
      [⟨.open, "a"⟩, ⟨.minimize, "a"⟩, ⟨.open, "b"⟩, ⟨.close, "b"⟩]
    reopened = { opened := [{ app := "a", state := .minimized }], focused := some "a" } ∧
      left = reopened ∧ reopened.FocusMinimized := by
  decide

end PocketShell.Windows
