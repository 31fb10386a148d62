import PocketShell.Proofs.Desktop.Order

set_option autoImplicit false

/-! # Windows that are changed in place

A window manager that keeps its windows in place looks for the position of a window, changes or
removes what stands there, and then sets the focus (`perform`). An error ends it, and what it has
changed before stays changed. Since each application has at most one window, it answers and leaves
the same as the calls do (`run_perform`): a window that is removed or changed by its position is the
only one of its application, and an error comes before the first change.
-/

namespace PocketShell.Windows

/-! ## Positions of elements with distinct keys -/

section Positions

variable {α κ : Type} [DecidableEq κ] {key : α → κ} {k : κ} {l : List α} {position : Nat}

theorem eraseIdx_of_findIdx? (h : (l.map key).Nodup)
    (hposition : l.findIdx? (key · == k) = some position) :
    l.eraseIdx position = l.filter (key · != k) := by
  induction l generalizing position with
  | nil => cases hposition
  | cons a l ih =>
      rw [List.map_cons, List.nodup_cons] at h
      rw [List.findIdx?_cons] at hposition
      split_ifs at hposition with hkey
      · obtain rfl := Option.some.inj hposition
        have hother : ∀ b ∈ l, (key b != k) = true := by
          intro b hb
          rw [← eq_of_beq hkey, bne_iff_ne]
          exact fun heq => h.1 (heq ▸ List.mem_map_of_mem hb)
        rw [List.eraseIdx_cons_zero, List.filter_cons_of_neg (by simpa using hkey),
          List.filter_eq_self.mpr hother]
      · obtain ⟨before, hbefore, rfl⟩ := Option.map_eq_some_iff.mp hposition
        rw [List.eraseIdx_cons_succ, ih h.2 hbefore, List.filter_cons_of_pos (by simpa using hkey)]

theorem modify_of_findIdx? (h : (l.map key).Nodup)
    (hposition : l.findIdx? (key · == k) = some position) (change : α → α) :
    l.modify position change = l.map fun a => if key a = k then change a else a := by
  induction l generalizing position with
  | nil => cases hposition
  | cons a l ih =>
      rw [List.map_cons, List.nodup_cons] at h
      rw [List.findIdx?_cons] at hposition
      split_ifs at hposition with hkey
      · obtain rfl := Option.some.inj hposition
        have hother : ∀ b ∈ l, (if key b = k then change b else b) = b := by
          intro b hb
          refine if_neg fun heq => h.1 ?_
          rw [eq_of_beq hkey, ← heq]
          exact List.mem_map_of_mem hb
        rw [List.modify_zero_cons, List.map_cons, if_pos (eq_of_beq hkey),
          List.map_congr_left hother, List.map_id']
      · obtain ⟨before, hbefore, rfl⟩ := Option.map_eq_some_iff.mp hposition
        rw [List.modify_succ_cons, ih h.2 hbefore, List.map_cons, if_neg (by simpa using hkey)]

theorem getElem?_of_findIdx? (hposition : l.findIdx? (key · == k) = some position) :
    l[position]? = l.find? (key · == k) := by
  induction l generalizing position with
  | nil => cases hposition
  | cons a l ih =>
      rw [List.findIdx?_cons] at hposition
      split_ifs at hposition with hkey
      · obtain rfl := Option.some.inj hposition
        rw [List.getElem?_cons_zero, List.find?_cons, hkey]
      · obtain ⟨before, hbefore, rfl⟩ := Option.map_eq_some_iff.mp hposition
        rw [List.getElem?_cons_succ, ih hbefore, List.find?_cons, Bool.eq_false_iff.mpr hkey]

end Positions

/-! ## Calls in place -/

/-- A computation that changes the windows in place. -/
abbrev InPlace (α : Type) := ExceptT DesktopError (StateM Windows) α

namespace InPlace

/-- The position of the window of an application. -/
def position (app : String) : InPlace Nat := do
  match (← get).opened.findIdx? (·.app == app) with
  | some position => return position
  | none => throw (.noWindow app)

/-- Changes the state of the window at a position. -/
def setState (position : Nat) (state : WindowState) : InPlace Unit :=
  modify fun ws =>
    { ws with opened := ws.opened.modify position fun window => { window with state } }

/-- Sets the focus. -/
def setFocus (app : Option String) : InPlace Unit := modify fun ws => { ws with focused := app }

/-- Does what a call asks for. -/
def perform (call : WindowCall) : InPlace Unit := do
  match call.action with
  | .open =>
      if ((← get).opened.findIdx? (·.app == call.app)).isNone then
        modify fun ws => { ws with opened := ws.opened ++ [{ app := call.app, state := .normal }] }
      setFocus (some call.app)
  | .close =>
      let place ← position call.app
      modify fun ws => { ws with opened := ws.opened.eraseIdx place }
      let ws ← get
      if ws.focused = some call.app then setFocus (ws.opened.getLast?.map Window.app)
  | .minimize =>
      setState (← position call.app) .minimized
      if (← get).focused = some call.app then setFocus none
  | .maximize =>
      setState (← position call.app) .maximized
      setFocus (some call.app)
  | .focus =>
      let place ← position call.app
      if (← get).opened[place]?.map Window.state = some .minimized then setState place .normal
      setFocus (some call.app)

variable {ws : Windows}

/-- **An error ends the computation** and leaves what was changed before it. -/
theorem run_bind {α β : Type} (x : InPlace α) (f : α → InPlace β) (ws : Windows) :
    (x >>= f).run.run ws
      = match x.run.run ws with
        | (.ok a, after) => (f a).run.run after
        | (.error error, after) => (.error error, after) := by
  show ExceptT.bindCont f (x ws).1 (x ws).2 = match x ws with
      | (.ok a, after) => (f a).run.run after
      | (.error error, after) => (.error error, after)
  generalize x ws = outcome
  obtain ⟨result, after⟩ := outcome
  cases result <;> rfl

theorem run_get_bind {α : Type} (f : Windows → InPlace α) (ws : Windows) :
    (get >>= f : InPlace α).run.run ws = (f ws).run.run ws := rfl

theorem run_position (app : String) (ws : Windows) :
    (position app).run.run ws
      = match ws.opened.findIdx? (·.app == app) with
        | some place => (.ok place, ws)
        | none => (.error (.noWindow app), ws) := by
  rw [position, run_get_bind]
  cases ws.opened.findIdx? (·.app == app) <;> rfl

/-- **A call in place answers and leaves the same** as the call. -/
theorem run_perform (h : ws.apps.Nodup) (call : WindowCall) :
    (perform call).run.run ws = ws.answer call := by
  obtain ⟨action, app⟩ := call
  cases hplace : ws.opened.findIdx? (·.app == app) with
  | none =>
      have hwindow : ws.window? app = none := by
        rw [window?, List.find?_eq_none]
        simpa using List.findIdx?_eq_none_iff.mp hplace
      cases action with
      | «open» =>
          simp only [answer, act, «open», hwindow, perform]
          rw [run_get_bind, hplace]
          rfl
      | close | minimize | maximize | focus =>
          rw [answer, act_of_notMem (window?_eq_none_iff.mp hwindow) (by decide)]
          simp only [perform]
          rw [run_bind, run_position, hplace]
  | some place =>
      have hlookup : ws.opened[place]? = ws.window? app := getElem?_of_findIdx? hplace
      have hchange : ∀ state, (ws.setState app state).opened
          = ws.opened.modify place fun window => { window with state } :=
        fun state => (modify_of_findIdx? h hplace _).symm
      have hothers : ws.opened.filter (·.app != app) = ws.opened.eraseIdx place :=
        (eraseIdx_of_findIdx? h hplace).symm
      obtain ⟨hlt, -⟩ := List.findIdx?_eq_some_iff_getElem.mp hplace
      have hwindow : ws.window? app = some ws.opened[place] :=
        hlookup.symm.trans (List.getElem?_eq_getElem hlt)
      generalize ws.opened[place] = window at hwindow
      cases action with
      | «open» =>
          simp only [answer, act, «open», hwindow, perform]
          rw [run_get_bind, hplace]
          rfl
      | close =>
          simp only [answer, act, close, ifOpen, hwindow, hothers, perform]
          rw [run_bind, run_position, hplace]
          show (if ws.focused = some app then _ else _ : InPlace Unit).run.run
            { ws with opened := ws.opened.eraseIdx place } = _
          split_ifs <;> rfl
      | minimize =>
          simp only [answer, act, minimize, ifOpen, hwindow, hchange, perform]
          rw [run_bind, run_position, hplace]
          show (if ws.focused = some app then _ else _ : InPlace Unit).run.run { ws with
            opened := ws.opened.modify place fun window => { window with state := .minimized } } = _
          split_ifs <;> rfl
      | maximize =>
          simp only [answer, act, maximize, ifOpen, hwindow, hchange, perform]
          rw [run_bind, run_position, hplace]
          rfl
      | focus =>
          simp only [answer, act, focus, ifOpen, hwindow, perform]
          rw [run_bind, run_position, hplace]
          dsimp only
          rw [run_get_bind, hlookup, hwindow, Option.map_some]
          simp only [Option.some_inj]
          split_ifs with hminimized
          · simp only [hchange]
            rfl
          · rfl

/-- The windows that any calls in place make of none. -/
theorem foldl_perform (calls : List WindowCall) :
    calls.foldl (fun ws call => ((perform call).run.run ws).2) {}
      = ({} : Windows).callAll calls := by
  induction calls using List.reverseRecOn with
  | nil => rfl
  | append_singleton calls call ih =>
      rw [List.foldl_append, ih, callAll_concat, List.foldl_cons, List.foldl_nil,
        run_perform (orderly_callAll calls).nodup]

end InPlace

/-- **What any calls make of no windows, and what one more call does.** The windows belong to
different applications and stand in the order in which they were opened. At most one of them is
shown as the one with the focus, and the focus is on one of them. A call that opens no window fails
exactly if its application has none, and changes nothing then. Calls leave the windows of the other
applications as they are. -/
theorem callAll_spec (calls : List WindowCall) :
    let ws := calls.foldl (fun ws call => ((InPlace.perform call).run.run ws).2) {}
    ws = ({} : Windows).callAll calls ∧
      (ws.apps.Nodup ∧ ws.apps.Pairwise (OpenedBefore calls) ∧
        ∀ app, app ∈ ws.apps ↔ (openedAt calls app).isSome = true) ∧
      (ws.opened.countP ws.hasFocus ≤ 1 ∧ ∀ app, ws.focused = some app → app ∈ ws.apps) ∧
      ∀ call : WindowCall,
        let outcome := (InPlace.perform call).run.run ws
        outcome = ws.answer call ∧
          ((∃ error, outcome.1 = .error error) ↔ call.action ≠ .open ∧ call.app ∉ ws.apps) ∧
          (∀ error, outcome.1 = .error error → error = .noWindow call.app ∧ outcome.2 = ws) ∧
          outcome.2.others call.app = ws.others call.app := by
  intro ws
  have hrun : ws = ({} : Windows).callAll calls := InPlace.foldl_perform calls
  have horder : Orderly calls ws := hrun ▸ orderly_callAll calls
  refine ⟨hrun, ⟨horder.nodup, horder.ordered, horder.mem_iff⟩,
    ⟨horder.countP_hasFocus_le, horder.focused_mem⟩, fun call => ?_⟩
  intro outcome
  have houtcome : outcome = ws.answer call := InPlace.run_perform horder.nodup call
  rw [houtcome]
  refine ⟨rfl, ?_, fun error => answer_of_error, others_answer ws call⟩
  rw [answer_fst, ← not_or]
  split_ifs with hfollowed
  · exact iff_of_false (fun ⟨error, herror⟩ => nomatch herror) (not_not.mpr hfollowed)
  · exact iff_of_true ⟨_, rfl⟩ hfollowed

end PocketShell.Windows
