import PocketShell.Proofs.Desktop.Calls

set_option autoImplicit false

/-! # The order of the windows

Which applications have a window after several calls, and which call has opened it, can be told from
the calls (`openedAt`). The windows stand in the order of these calls, so that an application which
is closed and opened again comes last, and the focus is on one of them (`Orderly`). Each call keeps
this (`Orderly.answer`), and so any calls do (`orderly_callAll`).
-/

namespace PocketShell.Windows

/-! ## Openings -/

/-- The position of the call that has opened the window of an application, after one more call with
its position. Opening a window that is open opens none. -/
def openedAfter (app : String) (before : Option Nat) (call : WindowCall × Nat) : Option Nat :=
  if call.1.app = app then
    match call.1.action with
    | .open => before.or (some call.2)
    | .close => none
    | .minimize | .maximize | .focus => before
  else before

/-- The position of the call that has opened the window which an application has after several
calls. There are no windows before them. -/
def openedAt (calls : List WindowCall) (app : String) : Option Nat :=
  calls.zipIdx.foldl (openedAfter app) none

theorem openedAt_concat (calls : List WindowCall) (call : WindowCall) (app : String) :
    openedAt (calls ++ [call]) app
      = openedAfter app (openedAt calls app) (call, calls.length) := by
  rw [openedAt, List.zipIdx_append, List.foldl_append, Nat.zero_add]
  rfl

theorem openedAt_lt {calls : List WindowCall} {app : String} {position : Nat}
    (h : openedAt calls app = some position) : position < calls.length := by
  induction calls using List.reverseRecOn with
  | nil => cases h
  | append_singleton calls call ih =>
      rw [List.length_append, List.length_singleton]
      rw [openedAt_concat, openedAfter] at h
      split_ifs at h with happ
      · split at h
        · rcases Option.or_eq_some_iff.mp h with hbefore | ⟨-, hnew⟩
          · exact Nat.lt_succ_of_lt (ih hbefore)
          · exact Option.some.inj hnew ▸ Nat.lt_succ_self _
        · cases h
        · exact Nat.lt_succ_of_lt (ih h)
        · exact Nat.lt_succ_of_lt (ih h)
        · exact Nat.lt_succ_of_lt (ih h)
      · exact Nat.lt_succ_of_lt (ih h)

/-- **A window that stays has been opened by the same call as before.** -/
theorem openedAt_concat_of_isSome {calls : List WindowCall} {call : WindowCall} {app : String}
    (h : (openedAt calls app).isSome = true) (hstays : call.action = .close → app ≠ call.app) :
    openedAt (calls ++ [call]) app = openedAt calls app := by
  obtain ⟨position, hposition⟩ := Option.isSome_iff_exists.mp h
  rw [openedAt_concat, openedAfter, hposition]
  split_ifs with happ
  · cases haction : call.action with
    | «open» | minimize | maximize | focus => rfl
    | close => exact absurd happ.symm (hstays haction)
  · rfl

/-- The window of the first application was opened before that of the second. -/
def OpenedBefore (calls : List WindowCall) (first second : String) : Prop :=
  ∃ i j, openedAt calls first = some i ∧ openedAt calls second = some j ∧ i < j

/-! ## Any calls -/

/-- **What the windows are like** after several calls. -/
structure Orderly (calls : List WindowCall) (ws : Windows) : Prop where
  /-- The windows are those that the calls have opened and not closed. -/
  mem_iff : ∀ app, app ∈ ws.apps ↔ (openedAt calls app).isSome = true
  /-- They stand in the order in which they were opened. -/
  ordered : ws.apps.Pairwise (OpenedBefore calls)
  /-- The focus is on one of them. -/
  focused_mem : ∀ app, ws.focused = some app → app ∈ ws.apps

namespace Orderly

variable {calls : List WindowCall} {ws : Windows}

/-- Each application has at most one window. -/
theorem nodup (h : Orderly calls ws) : ws.apps.Nodup := by
  refine h.ordered.imp ?_
  rintro first second ⟨i, j, hi, hj, hlt⟩ rfl
  exact hlt.ne (Option.some.inj (hi.symm.trans hj))

/-- At most one window is shown as the one with the focus. -/
theorem countP_hasFocus_le (h : Orderly calls ws) : ws.opened.countP ws.hasFocus ≤ 1 := by
  have hcount : ws.opened.countP ws.hasFocus = ws.apps.countP (ws.focused == some ·) := by
    rw [apps, List.countP_map]
    rfl
  rw [hcount]
  cases ws.focused with
  | none => simp
  | some app =>
      have hsame : (fun other => some app == some other) = (· == app) := by
        funext other
        simp [eq_comm]
      rw [hsame]
      exact List.nodup_iff_count_le_one.mp h.nodup app

theorem mem_appsAfter_iff (h : Orderly calls ws) (call : WindowCall) (app : String) :
    app ∈ appsAfter call ws.apps ↔ (openedAt (calls ++ [call]) app).isSome = true := by
  obtain ⟨action, named⟩ := call
  have hmem := h.mem_iff app
  rw [openedAt_concat, openedAfter]
  by_cases happ : named = app
  · subst happ
    rw [if_pos rfl]
    cases action with
    | «open» =>
        refine iff_of_true ?_ (by simp)
        rw [appsAfter]
        dsimp only
        split_ifs with hopen
        · exact hopen
        · exact List.mem_append_right _ (List.mem_singleton_self _)
    | close => simp [appsAfter]
    | minimize | maximize | focus => exact hmem
  · rw [if_neg happ, ← hmem]
    cases action with
    | «open» =>
        rw [appsAfter]
        dsimp only
        split_ifs
        · exact Iff.rfl
        · simp [Ne.symm happ]
    | close => simp [appsAfter, Ne.symm happ]
    | minimize | maximize | focus => exact Iff.rfl

/-- Windows that stay keep their order. -/
theorem pairwise_of_sublist (h : Orderly calls ws) {call : WindowCall} {left : List String}
    (hleft : left.Sublist ws.apps) (hstays : call.action = .close → call.app ∉ left) :
    left.Pairwise (OpenedBefore (calls ++ [call])) := by
  have hsame : ∀ app ∈ left, openedAt (calls ++ [call]) app = openedAt calls app := by
    intro app happ
    refine openedAt_concat_of_isSome ((h.mem_iff app).mp (hleft.subset happ)) fun hclose => ?_
    exact ne_of_mem_of_not_mem happ (hstays hclose)
  refine (h.ordered.sublist hleft).imp_of_mem ?_
  rintro first second hfirst hsecond ⟨i, j, hi, hj, hlt⟩
  exact ⟨i, j, (hsame first hfirst).trans hi, (hsame second hsecond).trans hj, hlt⟩

theorem ordered_appsAfter (h : Orderly calls ws) (call : WindowCall) :
    (appsAfter call ws.apps).Pairwise (OpenedBefore (calls ++ [call])) := by
  obtain ⟨action, named⟩ := call
  cases action with
  | «open» =>
      have hpairwise : ws.apps.Pairwise (OpenedBefore (calls ++ [⟨.open, named⟩])) :=
        h.pairwise_of_sublist (List.Sublist.refl _) fun hclose => nomatch hclose
      rw [appsAfter]
      dsimp only
      split_ifs with hopen
      · exact hpairwise
      · -- the new window is opened by the last call
        refine List.pairwise_append.mpr ⟨hpairwise, List.pairwise_singleton _ _, ?_⟩
        intro first hfirst second hsecond
        obtain rfl := List.mem_singleton.mp hsecond
        have hisSome := (h.mem_iff first).mp hfirst
        obtain ⟨i, hi⟩ := Option.isSome_iff_exists.mp hisSome
        have hnone : openedAt calls second = none := by
          rw [← Option.not_isSome_iff_eq_none, ← h.mem_iff]
          exact hopen
        refine ⟨i, calls.length, ?_, ?_, openedAt_lt hi⟩
        · refine (openedAt_concat_of_isSome hisSome ?_).trans hi
          exact fun hclose => nomatch hclose
        · rw [openedAt_concat, openedAfter, hnone]
          exact if_pos rfl
  | close => exact h.pairwise_of_sublist List.filter_sublist fun _ => by simp [appsAfter]
  | minimize | maximize | focus =>
      exact h.pairwise_of_sublist (List.Sublist.refl _) fun hclose => nomatch hclose

/-- **Each call keeps the order.** -/
theorem answer (h : Orderly calls ws) (call : WindowCall) :
    Orderly (calls ++ [call]) (ws.answer call).2 where
  mem_iff app := by rw [apps_answer, h.mem_appsAfter_iff]
  ordered := by
    rw [apps_answer]
    exact h.ordered_appsAfter call
  focused_mem := focused_mem_answer h.focused_mem call

end Orderly

/-- **The order of the windows after any calls.** -/
theorem orderly_callAll (calls : List WindowCall) :
    Orderly calls (({} : Windows).callAll calls) := by
  induction calls using List.reverseRecOn with
  | nil => exact ⟨fun app => by simp [callAll, apps, openedAt], .nil, fun app h => nomatch h⟩
  | append_singleton calls call ih =>
      rw [callAll_concat]
      exact ih.answer call

/-- A window that is closed and opened again comes last. -/
example : (({} : Windows).callAll
    [⟨.open, "a"⟩, ⟨.open, "b"⟩, ⟨.close, "a"⟩, ⟨.open, "a"⟩]).apps = ["b", "a"] := by
  decide

end PocketShell.Windows
