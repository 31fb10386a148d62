import PocketShell.Desktop.Windows
import Mathlib.Tactic

set_option autoImplicit false

/-! # Calls of the window manager

A call is one of five actions on the window of an application. What it can come to is said once
(`Answers`). What it does to the windows is read off it: which names of applications there are and
in which order (`apps_answer`), how the window of each application is shown (`state?_answer`), and
that the windows of the other applications stay as they are (`others_answer`).
-/

namespace PocketShell

/-- What can be asked for the window of an application. -/
inductive WindowAction where
  | «open»
  | close
  | minimize
  | maximize
  | focus
deriving DecidableEq, Repr

/-- A call of the window manager. -/
structure WindowCall where
  action : WindowAction
  app : String
deriving DecidableEq, Repr

namespace Windows

/-! ## Views -/

/-- The applications with a window, in the order of the windows. -/
def apps (ws : Windows) : List String := ws.opened.map Window.app

/-- How the window of an application is shown. -/
def state? (ws : Windows) (app : String) : Option WindowState :=
  (ws.window? app).map Window.state

/-- The windows of the other applications. -/
def others (ws : Windows) (app : String) : List Window := ws.opened.filter (·.app != app)

variable {ws : Windows} {app other : String}

theorem app_of_window? {window : Window} (h : ws.window? app = some window) :
    window.app = app := by
  simpa using List.find?_some h

theorem window?_isSome_iff : (ws.window? app).isSome = true ↔ app ∈ ws.apps := by
  simp [window?, apps]

theorem window?_eq_none_iff : ws.window? app = none ↔ app ∉ ws.apps := by
  rw [← window?_isSome_iff, Option.not_isSome_iff_eq_none]

theorem state?_isSome_iff : (ws.state? app).isSome = true ↔ app ∈ ws.apps := by
  rw [state?, Option.isSome_map, window?_isSome_iff]

theorem mem_of_state? {state : WindowState} (h : ws.state? app = some state) : app ∈ ws.apps := by
  rw [← state?_isSome_iff, h, Option.isSome_some]

theorem state?_eq_none_iff : ws.state? app = none ↔ app ∉ ws.apps := by
  rw [← state?_isSome_iff, Option.not_isSome_iff_eq_none]

/-! ## Changes of the windows -/

theorem app_ite_state (window : Window) (state : WindowState) :
    (if window.app = app then { window with state } else window : Window).app = window.app := by
  split_ifs <;> rfl

theorem apps_setState (state : WindowState) : (ws.setState app state).apps = ws.apps := by
  rw [apps, apps, setState, List.map_map]
  exact List.map_congr_left fun window _ => app_ite_state window state

theorem others_setState (state : WindowState) :
    (ws.setState app state).others app = ws.others app := by
  simp only [others, setState, List.filter_map, Function.comp_def, app_ite_state]
  refine (List.map_congr_left fun window hwindow => if_neg ?_).trans (List.map_id _)
  simpa using (List.mem_filter.mp hwindow).2

theorem state?_setState (state : WindowState) :
    (ws.setState app state).state? other
      = if other = app then (ws.state? other).map fun _ => state else ws.state? other := by
  simp only [state?, window?, setState, List.find?_map, Function.comp_def, app_ite_state]
  cases hwindow : ws.opened.find? (·.app == other) with
  | none => simp
  | some window =>
      simp only [Option.map_some, app_of_window? hwindow]
      split_ifs <;> rfl

theorem apps_others (focused : Option String) :
    ({ opened := ws.others app, focused } : Windows).apps = ws.apps.filter (· != app) := by
  rw [apps, others, apps, List.filter_map]
  rfl

theorem state?_others (focused : Option String) :
    ({ opened := ws.others app, focused } : Windows).state? other
      = if other = app then none else ws.state? other := by
  split_ifs with h
  · rw [state?_eq_none_iff, apps_others, h]
    simp
  · have hkeeps : (fun window : Window => decide ((window.app != app) = true ∧
        (window.app == other) = true)) = (·.app == other) := by
      funext window
      by_cases hsame : window.app = other
      · simp [hsame, h]
      · simp [hsame]
    rw [state?, state?, window?, window?, others, List.find?_filter, hkeeps]

/-- A window that is put last is that of its application if there was none. -/
theorem state?_append (h : app ∉ ws.apps) (state : WindowState) (focused : Option String) :
    ({ opened := ws.opened ++ [{ app, state }], focused } : Windows).state? other
      = if other = app then some state else ws.state? other := by
  rw [state?, window?, List.find?_append, ← window?, List.find?_singleton]
  split_ifs with hfound hother hother
  · rw [hother, window?_eq_none_iff.mpr h]
    rfl
  · exact absurd (by simpa using hfound) (Ne.symm hother)
  · simp [hother] at hfound
  · rw [Option.or_none, state?]

/-! ## One call -/

/-- The windows after a call, or why it cannot be followed. -/
def act (ws : Windows) (call : WindowCall) : Except DesktopError Windows :=
  match call.action with
  | .open => .ok (ws.open call.app)
  | .close => ws.close call.app
  | .minimize => ws.minimize call.app
  | .maximize => ws.maximize call.app
  | .focus => ws.focus call.app

/-- What a call answers, and the windows that it leaves: those of before if it fails. -/
def answer (ws : Windows) (call : WindowCall) : Except DesktopError Unit × Windows :=
  match ws.act call with
  | .ok after => (.ok (), after)
  | .error error => (.error error, ws)

/-- The windows after several calls. -/
def callAll (ws : Windows) (calls : List WindowCall) : Windows :=
  calls.foldl (fun ws call => (ws.answer call).2) ws

theorem callAll_concat (ws : Windows) (calls : List WindowCall) (call : WindowCall) :
    ws.callAll (calls ++ [call]) = ((ws.callAll calls).answer call).2 := by
  rw [callAll, List.foldl_append]
  rfl

/-- **What a call can come to.** -/
inductive Answers (ws : Windows) : WindowCall → Except DesktopError Unit × Windows → Prop
  | opens {app : String} (h : app ∉ ws.apps) :
      Answers ws ⟨.open, app⟩
        (.ok (), { opened := ws.opened ++ [{ app, state := .normal }], focused := some app })
  | reopens {app : String} (h : app ∈ ws.apps) :
      Answers ws ⟨.open, app⟩ (.ok (), { ws with focused := some app })
  | closes {app : String} (h : app ∈ ws.apps) :
      Answers ws ⟨.close, app⟩ (.ok (), {
        opened := ws.others app
        focused :=
          if ws.focused = some app then (ws.others app).getLast?.map Window.app else ws.focused })
  | minimizes {app : String} (h : app ∈ ws.apps) :
      Answers ws ⟨.minimize, app⟩ (.ok (), {
        ws.setState app .minimized with
        focused := if ws.focused = some app then none else ws.focused })
  | maximizes {app : String} (h : app ∈ ws.apps) :
      Answers ws ⟨.maximize, app⟩
        (.ok (), { ws.setState app .maximized with focused := some app })
  | restores {app : String} (h : ws.state? app = some .minimized) :
      Answers ws ⟨.focus, app⟩ (.ok (), { ws.setState app .normal with focused := some app })
  | focuses {app : String} {state : WindowState} (h : ws.state? app = some state)
      (hstate : state ≠ .minimized) :
      Answers ws ⟨.focus, app⟩ (.ok (), { ws with focused := some app })
  | fails {action : WindowAction} {app : String} (h : app ∉ ws.apps) (hne : action ≠ .open) :
      Answers ws ⟨action, app⟩ (.error (.noWindow app), ws)

/-- A call that needs a window which is not there cannot be followed. -/
theorem act_of_notMem {action : WindowAction} (h : app ∉ ws.apps) (hne : action ≠ .open) :
    ws.act ⟨action, app⟩ = .error (.noWindow app) := by
  have hwindow := window?_eq_none_iff.mpr h
  cases action with
  | «open» => exact absurd rfl hne
  | close | minimize | maximize | focus =>
      simp only [act, close, minimize, maximize, focus, ifOpen, hwindow]

theorem answers (ws : Windows) (call : WindowCall) : ws.Answers call (ws.answer call) := by
  obtain ⟨action, app⟩ := call
  by_cases hmem : app ∈ ws.apps
  · obtain ⟨window, hwindow⟩ := Option.isSome_iff_exists.mp (window?_isSome_iff.mpr hmem)
    cases action with
    | «open» =>
        simp only [answer, act, «open», hwindow]
        exact .reopens hmem
    | close =>
        simp only [answer, act, close, ifOpen, hwindow]
        exact .closes hmem
    | minimize =>
        simp only [answer, act, minimize, ifOpen, hwindow]
        exact .minimizes hmem
    | maximize =>
        simp only [answer, act, maximize, ifOpen, hwindow]
        exact .maximizes hmem
    | focus =>
        have hstate : ws.state? app = some window.state := by rw [state?, hwindow, Option.map_some]
        simp only [answer, act, focus, ifOpen, hwindow]
        split_ifs with hminimized
        · exact .restores (hstate.trans (congrArg some hminimized))
        · exact .focuses hstate hminimized
  · by_cases hopen : action = .open
    · simp only [hopen, answer, act, «open», window?_eq_none_iff.mpr hmem]
      exact .opens hmem
    · rw [answer, act_of_notMem hmem hopen]
      exact .fails hmem hopen

/-! ## The views after a call -/

/-- **A call fails exactly if it needs a window that is not there.** -/
theorem answer_fst (ws : Windows) (call : WindowCall) :
    (ws.answer call).1
      = if call.action = .open ∨ call.app ∈ ws.apps then .ok ()
        else .error (.noWindow call.app) := by
  have h := ws.answers call
  generalize ws.answer call = result at h ⊢
  cases h with
  | opens hmem | reopens hmem => exact (if_pos (.inl rfl)).symm
  | closes hmem | minimizes hmem | maximizes hmem => exact (if_pos (.inr hmem)).symm
  | restores hstate | focuses hstate =>
      exact (if_pos (.inr (mem_of_state? hstate))).symm
  | fails hmem hne => exact (if_neg (not_or.mpr ⟨hne, hmem⟩)).symm

/-- **A call that fails changes nothing.** -/
theorem answer_of_error {call : WindowCall} {error : DesktopError}
    (herror : (ws.answer call).1 = .error error) :
    error = .noWindow call.app ∧ (ws.answer call).2 = ws := by
  have h := ws.answers call
  generalize ws.answer call = result at h herror ⊢
  cases h with
  | fails hmem hne => exact ⟨(Except.error.inj herror).symm, rfl⟩
  | opens | reopens | closes | minimizes | maximizes | restores | focuses => cases herror

/-- **The windows of the other applications** stay as they are, in their order. -/
theorem others_answer (ws : Windows) (call : WindowCall) :
    (ws.answer call).2.others call.app = ws.others call.app := by
  have h := ws.answers call
  generalize ws.answer call = result at h ⊢
  cases h with
  | opens hmem => simp [others]
  | closes hmem => simp [others]
  | minimizes hmem | maximizes hmem | restores hstate => exact others_setState _
  | reopens hmem | focuses hstate hne | fails hmem hne => rfl

/-- The state of a window after an action, none standing for no window. -/
def shown : WindowAction → Option WindowState → Option WindowState
  | .open, state => state.or (some .normal)
  | .close, _ => none
  | .minimize, state => state.map fun _ => .minimized
  | .maximize, state => state.map fun _ => .maximized
  | .focus, state => state.map fun state => if state = .minimized then .normal else state

/-- **How each window is shown after a call.** -/
theorem state?_answer (ws : Windows) (call : WindowCall) (app : String) :
    (ws.answer call).2.state? app
      = if app = call.app then shown call.action (ws.state? app) else ws.state? app := by
  have h := ws.answers call
  generalize ws.answer call = result at h ⊢
  cases h with
  | opens hmem =>
      refine (state?_append hmem .normal _).trans ?_
      split_ifs with happ
      · rw [happ, state?_eq_none_iff.mpr hmem]
        rfl
      · rfl
  | reopens hmem =>
      obtain ⟨state, hstate⟩ := Option.isSome_iff_exists.mp (state?_isSome_iff.mpr hmem)
      refine (ite_eq_right_iff.mpr fun happ => ?_).symm
      show shown .open (ws.state? app) = ws.state? app
      rw [happ, hstate]
      rfl
  | closes hmem => exact state?_others _
  | minimizes hmem | maximizes hmem => exact state?_setState _
  | restores hstate =>
      refine (state?_setState _).trans ?_
      split_ifs with happ
      · rw [happ, hstate]
        rfl
      · rfl
  | focuses hstate hne =>
      refine (ite_eq_right_iff.mpr fun happ => ?_).symm
      show shown .focus (ws.state? app) = ws.state? app
      rw [happ, hstate]
      exact congrArg some (if_neg hne)
  | @fails action app hmem hne =>
      refine (ite_eq_right_iff.mpr fun happ => ?_).symm
      rw [happ, state?_eq_none_iff.mpr hmem]
      cases action with
      | «open» => exact absurd rfl hne
      | close | minimize | maximize | focus => rfl

/-- The applications with a window after a call. -/
def appsAfter (call : WindowCall) (apps : List String) : List String :=
  match call.action with
  | .open => if call.app ∈ apps then apps else apps ++ [call.app]
  | .close => apps.filter (· != call.app)
  | .minimize | .maximize | .focus => apps

/-- **The order of the windows after a call.** -/
theorem apps_answer (ws : Windows) (call : WindowCall) :
    (ws.answer call).2.apps = appsAfter call ws.apps := by
  have h := ws.answers call
  generalize ws.answer call = result at h ⊢
  cases h with
  | opens hmem =>
      refine Eq.trans ?_ (if_neg hmem).symm
      rw [apps, apps, List.map_append]
      rfl
  | reopens hmem => exact (if_pos hmem).symm
  | closes hmem => exact apps_others _
  | minimizes hmem | maximizes hmem | restores hstate => exact apps_setState _
  | focuses hstate hne => rfl
  | @fails action app hmem hne =>
      cases action with
      | «open» => exact absurd rfl hne
      | close =>
          refine (List.filter_eq_self.mpr fun other hother => ?_).symm
          simpa using ne_of_mem_of_not_mem hother hmem
      | minimize | maximize | focus => rfl

/-- The focus stays on a window that is there. -/
theorem focused_mem_answer (h : ∀ app, ws.focused = some app → app ∈ ws.apps) (call : WindowCall) :
    ∀ app, (ws.answer call).2.focused = some app → app ∈ (ws.answer call).2.apps := by
  have hanswers := ws.answers call
  generalize ws.answer call = result at hanswers ⊢
  intro app happ
  cases hanswers with
  | opens hmem =>
      obtain rfl := Option.some.inj happ
      simp [apps]
  | reopens hmem =>
      obtain rfl := Option.some.inj happ
      exact hmem
  | @closes named hmem =>
      dsimp only at happ
      split_ifs at happ with hfocused
      · exact List.mem_of_getLast? (List.getLast?_map.trans happ)
      · show app ∈ ({ opened := ws.others named, focused := ws.focused } : Windows).apps
        rw [apps_others, List.mem_filter]
        rw [happ, Option.some_inj] at hfocused
        exact ⟨h app happ, bne_iff_ne.mpr hfocused⟩
  | minimizes hmem =>
      dsimp only at happ
      split_ifs at happ
      exact (apps_setState .minimized).symm ▸ h app happ
  | maximizes hmem =>
      obtain rfl := Option.some.inj happ
      exact (apps_setState .maximized).symm ▸ hmem
  | restores hstate =>
      obtain rfl := Option.some.inj happ
      exact (apps_setState .normal).symm ▸ mem_of_state? hstate
  | focuses hstate hne =>
      obtain rfl := Option.some.inj happ
      exact mem_of_state? hstate
  | fails hmem hne => exact h app happ

end Windows

end PocketShell
