import PocketShell.Proofs.CommandLine.Marking
import PocketShell.Proofs.Session.Running

set_option autoImplicit false

/-! # The history only grows

A line enters the history after a reference to the history has been replaced in it, and later
references are looked up in what has entered. So no entry may itself be a reference, or to
submit an entry again would lead on to another one. This holds by induction over all that a user
does: a line that enters is either no reference, or it is an entry already (`isEntry_of_recorded?`).

No built-in command writes to the history, so submitting a line adds its entry and nothing
else, and a reference to an entry submits that entry again.
-/

namespace PocketShell

/-! ## References to entries -/

namespace EventReference

theorem ofLine?_last {line : String} (h : line = "!!") : ofLine? line = some last := by
  subst h
  rfl

theorem ofLine?_number {line : String} {number : List Char} {n : Nat}
    (hline : line.toList = '!' :: number) (hn : Text.numeral? Text.maxWord number = some n) :
    ofLine? line = some (entry n) := by
  have hbang : number ≠ ['!'] := by
    rintro rfl
    cases hn
  unfold ofLine?
  rw [hline]
  split
  · next heq =>
      injection heq with _ heq
      exact absurd heq hbang
  · next number' _ heq =>
      injection heq with _ heq
      rw [← heq, hn]
      rfl
  · next hno => exact absurd rfl (hno number)

theorem find?_entry_eq_some_iff {history : List String} {n : Nat} {line : String} :
    (entry n).find? history = some line ↔ 1 ≤ n ∧ history[n - 1]? = some line := by
  cases n with
  | zero => simp [find?]
  | succ n => simp [find?]

/-- A reference leads to a line of the history. -/
theorem mem_of_find? {history : List String} {reference : EventReference} {line : String}
    (h : reference.find? history = some line) : line ∈ history := by
  cases reference with
  | last => exact List.mem_of_getLast? h
  | entry n => exact List.mem_of_getElem? (find?_entry_eq_some_iff.mp h).2

end EventReference

theorem expandHistory_of_none {line : String} (h : EventReference.ofLine? line = none)
    (history : List String) : expandHistory line history = .ok line := by
  rw [expandHistory, h]

theorem expandHistory_of_some {line : String} {reference : EventReference}
    (h : EventReference.ofLine? line = some reference) {history : List String} {entry : String} :
    expandHistory line history = .ok entry ↔ reference.find? history = some entry := by
  rw [expandHistory, h]
  dsimp only
  cases reference.find? history with
  | none => simp
  | some found => simp

/-! ## Entries -/

/-- **The invariant of the history**, for each of its entries: it is not empty, has no white
space at its ends, and is no reference to the history. -/
structure IsEntry (line : String) : Prop where
  ne_empty : line ≠ ""
  trim_eq : Text.trim line = line
  no_reference : EventReference.ofLine? line = none

namespace Session

variable (session : Session)

/-- The line that enters is a proper entry if all that it can refer to are. -/
theorem isEntry_of_recorded? {session : Session} (h : ∀ entry ∈ session.history, IsEntry entry)
    {input line : String} (hline : session.recorded? input = some line) : IsEntry line := by
  obtain ⟨hblank, hexpand⟩ := (session.recorded?_eq_some_iff input line).mp hline
  cases href : EventReference.ofLine? (Text.trim input) with
  | none =>
      rw [expandHistory_of_none href] at hexpand
      obtain rfl := Except.ok.inj hexpand
      exact ⟨hblank, Text.trim_trim input, href⟩
  | some reference =>
      exact h line (EventReference.mem_of_find? ((expandHistory_of_some href).mp hexpand))

/-- A proper entry enters as it is. -/
theorem recorded?_of_isEntry {line : String} (h : IsEntry line) :
    session.recorded? line = some line := by
  rw [recorded?_eq_some_iff, h.trim_eq]
  exact ⟨h.ne_empty, expandHistory_of_none h.no_reference session.history⟩

theorem history_historyUp : session.historyUp.2.history = session.history := by
  obtain ⟨cursor, h⟩ := session.historyUp_eq
  rw [h]
  rfl

theorem history_historyDown : session.historyDown.2.history = session.history := by
  obtain ⟨cursor, h⟩ := session.historyDown_eq
  rw [h]
  rfl

/-- **What one action adds to the history**: nothing, or one proper entry. -/
theorem history_act {session : Session} (hregistry : session.registry = Builtin.registry)
    (h : ∀ entry ∈ session.history, IsEntry entry) (action : UserAction) :
    ∃ added, (session.act action).history = session.history ++ added ∧
      ∀ entry ∈ added, IsEntry entry := by
  cases action with
  | submit input =>
      refine ⟨_, session.history_submit hregistry input, ?_⟩
      intro entry hmem
      exact isEntry_of_recorded? h (Option.mem_toList.mp hmem)
  | historyUp => exact ⟨[], by simp [act, history_historyUp], by simp⟩
  | historyDown => exact ⟨[], by simp [act, history_historyDown], by simp⟩

/-- **All that a user does** only adds proper entries. -/
theorem history_actAll {session : Session} (hregistry : session.registry = Builtin.registry)
    (h : ∀ entry ∈ session.history, IsEntry entry) (actions : List UserAction) :
    session.history <+: (session.actAll actions).history ∧
      ∀ entry ∈ (session.actAll actions).history, IsEntry entry := by
  refine session.actAll_induction (P := fun after => session.history <+: after.history ∧
    ∀ entry ∈ after.history, IsEntry entry) ?_ hregistry ⟨List.prefix_refl _, h⟩ actions
  intro after hafter ⟨hpre, hentries⟩ action
  obtain ⟨added, hadded, hproper⟩ := history_act hafter hentries action
  rw [hadded]
  refine ⟨hpre.trans (List.prefix_append _ _), ?_⟩
  intro entry hmem
  rcases List.mem_append.mp hmem with hmem | hmem
  · exact hentries entry hmem
  · exact hproper entry hmem

/-! ## Submitting an entry again -/

/-- Submitting `input` is submitting the entry again: it renders the same, leaves the same
session, and writes the entry to the history once more. -/
def Repeats (input entry : String) : Prop :=
  session.submit input = session.submit entry ∧
    (session.submit input).2.history = session.history ++ [entry]

theorem repeats_of_recorded? {session : Session} (hregistry : session.registry = Builtin.registry)
    (h : ∀ entry ∈ session.history, IsEntry entry) {input entry : String}
    (hentry : session.recorded? input = some entry) : session.Repeats input entry := by
  have hagain : session.recorded? entry = some entry :=
    session.recorded?_of_isEntry (isEntry_of_recorded? h hentry)
  constructor
  · rw [session.submit_of_some hentry, session.submit_of_some hagain]
  · rw [session.history_submit hregistry, hentry, Option.toList_some]

theorem history_submit_eq_iff (hregistry : session.registry = Builtin.registry)
    (input : String) : (session.submit input).2.history = session.history ↔
      session.recorded? input = none := by
  rw [session.history_submit hregistry]
  cases session.recorded? input with
  | none => simp
  | some entry => simp

/-! ## Every history -/

/-- **The history only grows, and its entries stand for themselves.** Whatever a user has done,
each entry is a proper one, and stays in its place whatever is done later. Submitting a line
leaves the history as it is exactly if the line is white space or refers to no entry, and else
adds one entry. A line `!!` or `!n` that refers to an entry submits this entry again. -/
theorem history_appendOnly (files : FileSystem) (desktop : Desktop) (settings : Settings)
    (actions : List UserAction) :
    let session := (start Builtin.registry files desktop settings).actAll actions
    (∀ entry ∈ session.history, entry ≠ "" ∧ Text.trim entry = entry ∧
      ∀ history, expandHistory entry history = .ok entry) ∧
    (∀ later, session.history <+: (session.actAll later).history) ∧
    session.historyUp.2.history = session.history ∧
    session.historyDown.2.history = session.history ∧
    (∀ input, ((session.submit input).2.history = session.history ↔ Text.trim input = "" ∨
        ∃ reference, expandHistory (Text.trim input) session.history = .error reference) ∧
      ((session.submit input).2.history ≠ session.history → ∃ entry,
        expandHistory (Text.trim input) session.history = .ok entry ∧
        (session.submit input).2.history = session.history ++ [entry])) ∧
    (∀ input entry, Text.trim input = "!!" →
      expandHistory (Text.trim input) session.history = .ok entry →
      session.history.getLast? = some entry ∧ session.Repeats input entry) ∧
    (∀ input number n entry, (Text.trim input).toList = '!' :: number →
      Text.numeral? Text.maxWord number = some n →
      expandHistory (Text.trim input) session.history = .ok entry →
      1 ≤ n ∧ session.history[n - 1]? = some entry ∧ session.Repeats input entry) := by
  intro session
  have hregistry : session.registry = Builtin.registry := registry_actAll _ actions
  have hentries : ∀ entry ∈ session.history, IsEntry entry :=
    (history_actAll rfl (by simp [start, history]) actions).2
  have hrepeats : ∀ input entry, Text.trim input ≠ "" →
      expandHistory (Text.trim input) session.history = .ok entry →
      session.Repeats input entry := by
    intro input entry hblank hexpand
    have hentry := (session.recorded?_eq_some_iff input entry).mpr ⟨hblank, hexpand⟩
    exact repeats_of_recorded? hregistry hentries hentry
  refine ⟨?_, ?_, session.history_historyUp, session.history_historyDown, ?_, ?_, ?_⟩
  · intro entry hmem
    have hentry := hentries entry hmem
    exact ⟨hentry.ne_empty, hentry.trim_eq, expandHistory_of_none hentry.no_reference⟩
  · intro later
    exact (history_actAll hregistry hentries later).1
  · intro input
    have hstay := session.history_submit_eq_iff hregistry input
    refine ⟨hstay.trans (session.recorded?_eq_none_iff input), fun hgrown => ?_⟩
    have hsome : session.recorded? input ≠ none := fun hnone => hgrown (hstay.mpr hnone)
    obtain ⟨entry, hentry⟩ := Option.ne_none_iff_exists'.mp hsome
    refine ⟨entry, ((session.recorded?_eq_some_iff input entry).mp hentry).2, ?_⟩
    rw [session.history_submit hregistry, hentry, Option.toList_some]
  · intro input entry hinput hexpand
    have hblank : Text.trim input ≠ "" := by
      rw [hinput]
      decide
    have hfind := (expandHistory_of_some (EventReference.ofLine?_last hinput)).mp hexpand
    exact ⟨hfind, hrepeats input entry hblank hexpand⟩
  · intro input number n entry hinput hnumber hexpand
    have hblank : Text.trim input ≠ "" := by
      intro hempty
      rw [hempty] at hinput
      cases hinput
    have hfind := (expandHistory_of_some (EventReference.ofLine?_number hinput hnumber)).mp hexpand
    obtain ⟨hpos, hget⟩ := EventReference.find?_entry_eq_some_iff.mp hfind
    exact ⟨hpos, hget, hrepeats input entry hblank hexpand⟩

/-- A history of one line, which `!!` and `!+01` submit again. -/
theorem history_appendOnly_repeated :
    let session := (start Builtin.registry .empty .bare {}).actAll [.submit " echo hi ", .historyUp]
    session.history = ["echo hi"] ∧ session.Repeats "!! " "echo hi" ∧
      session.Repeats "!+01" "echo hi" := by
  intro session
  have h := history_appendOnly .empty .bare {} [.submit " echo hi ", .historyUp]
  have hhistory : session.history = ["echo hi"] := by
    have hentry : recorded? (start Builtin.registry .empty .bare {}) " echo hi " = some "echo hi" := by
      rw [recorded?_eq_some_iff]
      decide
    show (historyUp (submit _ _).2).2.history = _
    rw [history_historyUp, history_submit _ rfl, hentry]
    rfl
  obtain ⟨-, -, -, -, -, hlast, hnumber⟩ := h
  refine ⟨hhistory, ?_, ?_⟩
  · refine (hlast "!! " "echo hi" (by decide) ?_).2
    rw [show Session.history _ = ["echo hi"] from hhistory]
    decide
  · refine (hnumber "!+01" ['+', '0', '1'] 1 "echo hi" (by decide) (by decide) ?_).2.2
    rw [show Session.history _ = ["echo hi"] from hhistory]
    decide

end Session

end PocketShell
