import PocketShell.Proofs.TextMap
import PocketShell.Shell.Registry

set_option autoImplicit false

/-! # What a registry knows

After any sequence of registrations the registry tells of each proper name the command that was
registered last under it, and of nothing else: no name leads to a command that has been
replaced, and each command stands in the list of its category once and in no other list
(`Registry.Consistent`).

A registration first takes away the command of the same name with all that leads to it, then
lets the aliases lead to the new command, and then enters the name itself. For a consistent
registry each step has a plain effect on what is found (`find?_remove`, `find?_addAliases`,
`find?_addProper`) and on what is listed, and the effect of the whole registration is the
three of them together (`find?_register`, `listed_register`).
-/

namespace PocketShell.Registry

variable {α : Type}

/-! ## The commands that count -/

/-- The commands as they are registered one after the other. -/
def entries (commands : List (Command α)) : List (Registered α) :=
  commands.zipIdx.map fun entry => { serial := entry.2, command := entry.1 }

/-- The registration that counts for a proper name: the last one under it. -/
def lastNamed (commands : List (Command α)) (name : String) : Option (Registered α) :=
  ((entries commands).filter fun entry => entry.name = name).getLast?

/-- The names that a category lists. -/
def listed (registry : Registry α) (category : String) : List String :=
  registry.categories.getD category []

/-- **A registry after the given registrations.** -/
structure Consistent (registry : Registry α) (commands : List (Command α)) : Prop where
  serial_eq : registry.serial = commands.length
  /-- Each proper name has the command registered last under it. -/
  current : ∀ name, registry.proper[name]? = lastNamed commands name
  /-- Each proper name leads to its command. -/
  find_current : ∀ name entry, lastNamed commands name = some entry →
    registry.find? name = some entry
  /-- What any name leads to is the command of a proper name, and has the name. -/
  found : ∀ key entry, registry.find? key = some entry →
    lastNamed commands entry.name = some entry ∧
      (key = entry.name ∨ key ∈ entry.description.aliases)
  /-- Each proper name is listed once in the category of its command. -/
  listed_once : ∀ name entry, lastNamed commands name = some entry →
    (registry.listed entry.description.category).count name = 1
  /-- Nothing else is listed. -/
  of_listed : ∀ category name, name ∈ registry.listed category →
    ∃ entry, lastNamed commands name = some entry ∧ entry.description.category = category
  /-- No category is kept without names. -/
  ne_nil : ∀ category : String, registry.categories[category]? ≠ some []

theorem mem_entries {commands : List (Command α)} {entry : Registered α} :
    entry ∈ entries commands ↔ commands[entry.serial]? = some entry.command := by
  obtain ⟨serial, command⟩ := entry
  show _ ↔ commands[serial]? = some command
  rw [entries, List.mem_map]
  have hindex : (command, serial) ∈ commands.zipIdx ↔ commands[serial]? = some command :=
    List.mem_zipIdx_iff_getElem?
  rw [← hindex]
  constructor
  · rintro ⟨⟨c, n⟩, hmem, heq⟩
    obtain ⟨rfl, rfl⟩ := Registered.mk.inj heq
    exact hmem
  · intro hmem
    exact ⟨(command, serial), hmem, rfl⟩

theorem entries_concat (commands : List (Command α)) (command : Command α) :
    entries (commands ++ [command])
      = entries commands ++ [{ serial := commands.length, command }] := by
  rw [entries, entries, List.zipIdx_append, List.map_append]
  simp

theorem lastNamed_spec {commands : List (Command α)} {name : String} {entry : Registered α}
    (h : lastNamed commands name = some entry) :
    entry.name = name ∧ commands[entry.serial]? = some entry.command := by
  have hmem := List.mem_of_getLast? h
  rw [List.mem_filter, mem_entries, decide_eq_true_eq] at hmem
  exact ⟨hmem.2, hmem.1⟩

/-- **One more registration counts for its own name.** -/
theorem lastNamed_concat (commands : List (Command α)) (command : Command α) (name : String) :
    lastNamed (commands ++ [command]) name
      = if name = command.description.name then some { serial := commands.length, command }
        else lastNamed commands name := by
  have hname : ({ serial := commands.length, command } : Registered α).name
      = command.description.name := rfl
  rw [lastNamed, lastNamed, entries_concat, List.filter_append, List.getLast?_append, List.filter_cons,
    hname]
  by_cases heq : name = command.description.name
  · simp [heq]
  · simp [heq, Ne.symm heq]

/-- Of the commands that count, no two come from one registration. -/
theorem eq_of_same {commands : List (Command α)} {name other : String} {a b : Registered α}
    (ha : lastNamed commands name = some a)
    (hb : lastNamed commands other = some b) (h : a.same b = true) : name = other := by
  have hserial : a.serial = b.serial := by simpa [Registered.same] using h
  obtain ⟨hna, hca⟩ := lastNamed_spec ha
  obtain ⟨hnb, hcb⟩ := lastNamed_spec hb
  rw [hserial, hcb] at hca
  have hcommand := Option.some.inj hca
  rw [← hna, ← hnb, Registered.name, Registered.name, Registered.description,
    Registered.description, hcommand]

namespace Consistent

variable {registry : Registry α} {commands : List (Command α)}

/-! ## Taking a command away -/

/-- **After a command is taken away** no name leads to it, and every other name to what it led
to before. -/
theorem find?_remove (h : registry.Consistent commands) (name key : String) :
    (registry.remove name).find? key
      = (registry.find? key).filter fun entry => entry.name ≠ name := by
  rw [remove, h.current]
  cases hold : lastNamed commands name with
  | none =>
      show registry.find? key = _
      cases hfind : registry.find? key with
      | none => rfl
      | some entry =>
          -- the name has no command, so no name leads to one
          have hne : entry.name ≠ name := by
            rintro rfl
            rw [(h.found key entry hfind).1] at hold
            cases hold
          rw [Option.filter_some, if_pos (by simpa using hne)]
  | some old =>
      show (registry.lookup.filter fun _ entry => !entry.same old)[key]? = _
      rw [Std.TreeMap.getElem?_filter']
      show (registry.find? key).filter _ = _
      cases hfind : registry.find? key with
      | none => rfl
      | some entry =>
          have hcurrent := (h.found key entry hfind).1
          -- the same registration means the same name, and the other way round
          have hsame : entry.same old = true ↔ entry.name = name := by
            constructor
            · exact eq_of_same hcurrent hold
            · intro hname
              rw [hname, hold] at hcurrent
              rw [Option.some.inj hcurrent, Registered.same, beq_self_eq_true]
          rw [Option.filter_some, Option.filter_some]
          by_cases hname : entry.name = name
          · simp [hname, hsame.mpr hname]
          · have hnot : entry.same old = false := by
              rw [← Bool.not_eq_true]
              exact mt hsame.mp hname
            simp [hname, hnot]

theorem proper_remove (registry : Registry α) (name other : String) :
    (registry.remove name).proper[other]?
      = if other = name then none else registry.proper[other]? := by
  rw [remove]
  cases hold : registry.proper[name]? with
  | none =>
      show registry.proper[other]? = _
      split_ifs with heq
      · rw [heq, hold]
      · rfl
  | some old => exact getElem?_erase_string registry.proper name other

/-- What a category lists after a name has left another one, or this one. -/
theorem getD_leaveCategory (categories : Std.TreeMap String (List String))
    (category name other : String) :
    (leaveCategory categories category name).getD other []
      = if other = category then (categories.getD other []).filter (· != name)
        else categories.getD other [] := by
  simp only [Std.TreeMap.getD_eq_getD_getElem?]
  rw [leaveCategory]
  cases hnames : categories[category]? with
  | none =>
      show (categories[other]?).getD [] = _
      split_ifs with heq
      · rw [heq, hnames]
        rfl
      · rfl
  | some names =>
      by_cases heq : other = category
      · subst heq
        rw [if_pos rfl, hnames]
        dsimp only [Option.getD_some]
        split
        · next hnil => rw [getElem?_erase_string, if_pos rfl, hnil, Option.getD_none]
        · next left _ => rw [getElem?_insert_string, if_pos rfl, Option.getD_some]
      · rw [if_neg heq]
        dsimp only
        split
        · rw [getElem?_erase_string, if_neg heq]
        · rw [getElem?_insert_string, if_neg heq]

/-- **After a command is taken away** no category lists its name. -/
theorem listed_remove (h : registry.Consistent commands) (name category : String) :
    (registry.remove name).listed category = (registry.listed category).filter (· != name) := by
  -- a category that does not list the name stays as it is
  have hkeep : name ∉ registry.listed category →
      (registry.listed category).filter (· != name) = registry.listed category := by
    intro hnot
    rw [List.filter_eq_self]
    intro other hother
    simpa using fun heq : other = name => hnot (heq ▸ hother)
  rw [remove]
  have hcurrent := h.current name
  cases hold : registry.proper[name]? with
  | none =>
      rw [hold] at hcurrent
      refine (hkeep fun hmem => ?_).symm
      obtain ⟨entry, hentry, -⟩ := h.of_listed category name hmem
      rw [← hcurrent] at hentry
      cases hentry
  | some old =>
      rw [hold] at hcurrent
      show (leaveCategory _ _ _).getD category [] = _
      rw [getD_leaveCategory]
      split_ifs with heq
      · rfl
      · refine (hkeep fun hmem => ?_).symm
        obtain ⟨entry, hentry, hcategory⟩ := h.of_listed category name hmem
        rw [← hcurrent] at hentry
        rw [← hcategory, Option.some.inj hentry] at heq
        exact heq rfl

theorem ne_nil_remove (h : registry.Consistent commands) (name category : String) :
    (registry.remove name).categories[category]? ≠ some [] := by
  rw [remove]
  cases registry.proper[name]? with
  | none => exact h.ne_nil category
  | some old =>
      show (leaveCategory _ _ _)[category]? ≠ some []
      rw [leaveCategory]
      cases registry.categories[old.description.category]? with
      | none => exact h.ne_nil category
      | some names =>
          dsimp only
          split
          · rw [getElem?_erase_string]
            split_ifs
            · exact Option.some_ne_none _ ∘ Eq.symm
            · exact h.ne_nil category
          · next left hleft =>
              rw [getElem?_insert_string]
              split_ifs
              · intro hnil
                exact hleft (Option.some.inj hnil)
              · exact h.ne_nil category

end Consistent

/-! ## Entering a command -/

/-- **After the aliases are added** those that are no proper names lead to the command. -/
theorem find?_addAliases (registry : Registry α) (entry : Registered α) (aliases : List String)
    (key : String) :
    (registry.addAliases entry aliases).find? key
      = if key ∈ aliases ∧ registry.proper[key]? = none then some entry
        else registry.find? key := by
  have hstep : ∀ (lookup : Std.TreeMap String (Registered α)) (name : String),
      (if registry.proper.contains name then lookup else lookup.insert name entry)[key]?
        = if key = name ∧ registry.proper[key]? = none then some entry else lookup[key]? := by
    intro lookup name
    rw [Std.TreeMap.contains_eq_isSome_getElem?]
    by_cases heq : key = name
    · subst heq
      cases registry.proper[key]? with
      | none => simp
      | some other => simp
    · have hnot : ¬ (key = name ∧ registry.proper[key]? = none) := fun h => heq h.1
      rw [if_neg hnot]
      split_ifs
      · rfl
      · rw [getElem?_insert_string, if_neg heq]
  show (aliases.foldl _ registry.lookup)[key]? = if _ then _ else registry.lookup[key]?
  generalize registry.lookup = lookup
  induction aliases generalizing lookup with
  | nil => simp
  | cons name aliases ih =>
      rw [List.foldl_cons, ih, hstep]
      by_cases hmem : key ∈ aliases
      · simp only [hmem, List.mem_cons, or_true, true_and]
        split_ifs with hfree hname
        · rfl
        · exact absurd hname.2 hfree
        · rfl
      · simp only [hmem, List.mem_cons, or_false, false_and, if_false]

theorem find?_addProper (registry : Registry α) (entry : Registered α) (key : String) :
    (registry.addProper entry).find? key
      = if key = entry.name then some entry else registry.find? key :=
  getElem?_insert_string registry.lookup entry.name key entry

theorem listed_addProper (registry : Registry α) (entry : Registered α) (category : String) :
    (registry.addProper entry).listed category
      = registry.listed category
        ++ if category = entry.description.category then [entry.name] else [] := by
  simp only [listed, addProper, Std.TreeMap.getD_eq_getD_getElem?, getElem?_insert_string]
  split_ifs with heq
  · rw [heq, Option.getD_some]
  · rw [List.append_nil]

namespace Consistent

variable {registry : Registry α} {commands : List (Command α)}

/-- **What is found after a registration.** -/
theorem find?_register (h : registry.Consistent commands) (command : Command α) (key : String) :
    (registry.register command).find? key
      = if key = command.description.name then some { serial := registry.serial, command }
        else if key ∈ command.description.aliases ∧ registry.proper[key]? = none then
          some { serial := registry.serial, command }
        else (registry.find? key).filter fun entry => entry.name ≠ command.description.name := by
  rw [register, find?_addProper, find?_addAliases, h.find?_remove, proper_remove]
  show (if key = command.description.name then _ else
    if key ∈ command.description.aliases ∧
      (if key = command.description.name then _ else _) = none then _ else _) = _
  split_ifs <;> rfl

theorem proper_register (registry : Registry α) (command : Command α) (name : String) :
    (registry.register command).proper[name]?
      = if name = command.description.name then some { serial := registry.serial, command }
        else registry.proper[name]? := by
  show ((registry.remove command.description.name).proper.insert command.description.name
    { serial := registry.serial, command })[name]? = _
  rw [getElem?_insert_string, proper_remove]
  split_ifs <;> rfl

/-- **What a category lists after a registration.** -/
theorem listed_register (h : registry.Consistent commands) (command : Command α)
    (category : String) :
    (registry.register command).listed category
      = (registry.listed category).filter (· != command.description.name)
        ++ if category = command.description.category then [command.description.name] else [] := by
  rw [register, listed_addProper]
  refine congrArg₂ (· ++ ·) ?_ rfl
  exact h.listed_remove command.description.name category

theorem serial_register (registry : Registry α) (command : Command α) :
    (registry.register command).serial = registry.serial + 1 := by
  show (registry.remove command.description.name).serial + 1 = _
  rw [remove]
  cases registry.proper[command.description.name]? <;> rfl

/-- **One registration keeps the registry consistent.** -/
theorem register (h : registry.Consistent commands) (command : Command α) :
    (registry.register command).Consistent (commands ++ [command]) := by
  have hlast := lastNamed_concat commands command
  rw [← h.serial_eq] at hlast
  constructor
  · rw [serial_register, h.serial_eq, List.length_append]
    rfl
  · intro name
    rw [proper_register, hlast, h.current]
  · intro name entry hentry
    rw [hlast] at hentry
    rw [h.find?_register]
    split_ifs at hentry ⊢ with hname halias
    · exact hentry
    · -- a proper name is not taken over as an alias
      rw [h.current, hentry] at halias
      cases halias.2
    · have hne : entry.name ≠ command.description.name := by
        rw [(lastNamed_spec hentry).1]
        exact hname
      rw [h.find_current name entry hentry, Option.filter_some, if_pos (by simpa using hne)]
  · intro key entry hfind
    rw [h.find?_register] at hfind
    rw [hlast]
    split_ifs at hfind with hname halias
    · obtain rfl := Option.some.inj hfind
      exact ⟨if_pos rfl, Or.inl hname⟩
    · obtain rfl := Option.some.inj hfind
      exact ⟨if_pos rfl, Or.inr halias.1⟩
    · obtain ⟨hfind, hne⟩ := Option.filter_eq_some_iff.mp hfind
      rw [decide_eq_true_eq] at hne
      rw [if_neg hne]
      exact h.found key entry hfind
  · intro name entry hentry
    rw [hlast] at hentry
    rw [h.listed_register, List.count_append]
    split_ifs at hentry with hname
    · obtain rfl := Option.some.inj hentry
      have hzero : ((registry.listed command.description.category).filter
          (· != command.description.name)).count name = 0 := by
        rw [List.count_eq_zero, List.mem_filter, hname]
        simp
      show List.count name (List.filter _ (registry.listed command.description.category)) + _ = 1
      have hone : List.count name (if command.description.category = command.description.category
          then [command.description.name] else []) = 1 := by
        rw [if_pos rfl, hname, List.count_singleton_self]
      rw [hzero, Nat.zero_add]
      exact hone
    · have hkeep : (name != command.description.name) = true := by simpa using hname
      have hnew : List.count name
          (if entry.description.category = command.description.category
            then [command.description.name] else []) = 0 := by
        split_ifs
        · rw [List.count_eq_zero, List.mem_singleton]
          exact hname
        · rfl
      have hold : ((registry.listed entry.description.category).filter
          (· != command.description.name)).count name = 1 := by
        rw [List.count_filter (p := (· != command.description.name)) hkeep,
          h.listed_once name entry hentry]
      rw [hold, hnew]
  · intro category name hmem
    rw [h.listed_register, List.mem_append, List.mem_filter] at hmem
    rw [hlast]
    rcases hmem with ⟨hmem, hne⟩ | hmem
    · rw [if_neg (by simpa using hne)]
      exact h.of_listed category name hmem
    · split_ifs at hmem with hcategory
      · rw [List.mem_singleton] at hmem
        exact ⟨_, if_pos hmem, hcategory.symm⟩
      · cases hmem
  · intro category
    show ((registry.remove command.description.name).categories.insert
      command.description.category _)[category]? ≠ some []
    rw [getElem?_insert_string]
    split_ifs
    · simp
    · exact h.ne_nil_remove command.description.name category

/-- Only registered commands are found. -/
theorem mem_of_find? (h : registry.Consistent commands) {key : String} {entry : Registered α}
    (hfind : registry.find? key = some entry) : entry.command ∈ commands :=
  List.mem_of_getElem? (lastNamed_spec (h.found key entry hfind).1).2

/-- **A command whose name no other has is found by its name.** -/
theorem find?_of_nodup (h : registry.Consistent commands)
    (hnodup : (commands.map fun command => command.description.name).Nodup)
    {command : Command α} (hmem : command ∈ commands) :
    ∃ entry, registry.find? command.description.name = some entry ∧ entry.command = command := by
  obtain ⟨serial, hserial⟩ := List.mem_iff_getElem?.mp hmem
  have hnamed : ({ serial, command } : Registered α)
      ∈ (entries commands).filter fun entry => entry.name = command.description.name :=
    List.mem_filter.mpr ⟨mem_entries.mpr hserial, decide_eq_true rfl⟩
  have hlast : lastNamed commands command.description.name = some _ :=
    List.getLast?_eq_some_getLast (List.ne_nil_of_mem hnamed)
  obtain ⟨hname, hcommand⟩ := lastNamed_spec hlast
  refine ⟨_, h.find_current _ _ hlast, ?_⟩
  exact List.inj_on_of_nodup_map hnodup (List.mem_of_getElem? hcommand) hmem hname

/-- How often a category lists a proper name. -/
theorem count_listed (h : registry.Consistent commands) {name : String} {entry : Registered α}
    (hentry : lastNamed commands name = some entry) (category : String) :
    (registry.listed category).count name
      = if category = entry.description.category then 1 else 0 := by
  split_ifs with heq
  · rw [heq]
    exact h.listed_once name entry hentry
  · rw [List.count_eq_zero]
    intro hmem
    obtain ⟨other, hother, hcategory⟩ := h.of_listed category name hmem
    rw [hentry] at hother
    rw [← Option.some.inj hother] at hcategory
    exact heq hcategory.symm

/-- A category that is kept lists a name. -/
theorem listed_ne_nil (h : registry.Consistent commands) {category : String}
    (hmem : category ∈ registry.categoryNames) : registry.listed category ≠ [] := by
  rw [categoryNames, Std.TreeMap.mem_keys, Std.TreeMap.mem_iff_isSome_getElem?] at hmem
  obtain ⟨names, hnames⟩ := Option.isSome_iff_exists.mp hmem
  rw [listed, Std.TreeMap.getD_eq_getD_getElem?, hnames, Option.getD_some]
  rintro rfl
  exact h.ne_nil category hnames

end Consistent

/-- **Any registrations leave the registry consistent.** -/
theorem consistent_registerAll (commands : List (Command α)) :
    (({} : Registry α).registerAll commands).Consistent commands := by
  induction commands using List.reverseRecOn with
  | nil =>
      have hnone : ∀ name, lastNamed ([] : List (Command α)) name = none := fun name => rfl
      refine ⟨rfl, ?_, ?_, ?_, ?_, ?_, ?_⟩
      · intro name
        exact Std.TreeMap.getElem?_emptyc
      · intro name entry hentry
        rw [hnone] at hentry
        cases hentry
      · intro key entry hfind
        have hempty : ({} : Registry α).find? key = none := Std.TreeMap.getElem?_emptyc
        rw [registerAll, List.foldl_nil, hempty] at hfind
        cases hfind
      · intro name entry hentry
        rw [hnone] at hentry
        cases hentry
      · intro category name hmem
        have hempty : ({} : Registry α).listed category = [] := Std.TreeMap.getD_emptyc
        rw [registerAll, List.foldl_nil, hempty] at hmem
        cases hmem
      · intro category
        have hempty : ({} : Registry α).categories[category]? = none :=
          Std.TreeMap.getElem?_emptyc
        rw [registerAll, List.foldl_nil, hempty]
        exact Option.some_ne_none _ ∘ Eq.symm
  | append_singleton commands command ih =>
      rw [registerAll, List.foldl_append]
      exact ih.register command

/-! ## Listing all commands -/

namespace Consistent

variable {registry : Registry α} {commands : List (Command α)}

/-- The commands are listed in the order of their proper names. -/
theorem map_name_all (h : registry.Consistent commands) :
    registry.all.map Registered.name = registry.proper.keys := by
  rw [all, values_eq_map_toList, List.map_map, ← Std.TreeMap.map_fst_toList_eq_keys]
  refine List.map_congr_left ?_
  rintro ⟨name, entry⟩ hmem
  have hentry := Std.TreeMap.mem_toList_iff_getElem?_eq_some.mp hmem
  rw [h.current] at hentry
  exact (lastNamed_spec hentry).1

theorem nodup_map_name_all (h : registry.Consistent commands) :
    (registry.all.map Registered.name).Nodup := by
  rw [h.map_name_all]
  exact Std.TreeMap.nodup_keys

theorem mem_all (h : registry.Consistent commands) {entry : Registered α} :
    entry ∈ registry.all ↔ lastNamed commands entry.name = some entry := by
  rw [all, values_eq_map_toList, List.mem_map]
  constructor
  · rintro ⟨⟨name, other⟩, hmem, rfl⟩
    have hother := Std.TreeMap.mem_toList_iff_getElem?_eq_some.mp hmem
    rw [h.current] at hother
    rw [(lastNamed_spec hother).1]
    exact hother
  · intro hentry
    rw [← h.current] at hentry
    exact ⟨(entry.name, entry), Std.TreeMap.mem_toList_iff_getElem?_eq_some.mpr hentry, rfl⟩

/-- **A category has the commands that say so.** -/
theorem mem_inCategory (h : registry.Consistent commands) {category : String}
    {entry : Registered α} :
    entry ∈ registry.inCategory category
      ↔ lastNamed commands entry.name = some entry ∧ entry.description.category = category := by
  rw [inCategory, (List.mergeSort_perm _ _).mem_iff, List.mem_filterMap]
  constructor
  · rintro ⟨name, hmem, hentry⟩
    rw [h.current] at hentry
    obtain ⟨other, hother, hcategory⟩ := h.of_listed category name hmem
    rw [hentry] at hother
    obtain rfl := Option.some.inj hother
    rw [(lastNamed_spec hentry).1]
    exact ⟨hentry, hcategory⟩
  · rintro ⟨hentry, rfl⟩
    refine ⟨entry.name, ?_, by rw [h.current, hentry]⟩
    have hcount := h.listed_once _ _ hentry
    exact List.count_pos_iff.mp (by rw [listed] at hcount; omega)

theorem nodup_inCategory (h : registry.Consistent commands) (category : String) :
    (registry.inCategory category).Nodup := by
  rw [inCategory, (List.mergeSort_perm _ _).nodup_iff]
  -- a listed name is listed once, and the names of its commands tell commands apart
  have hlisted : (registry.listed category).Nodup := by
    rw [List.nodup_iff_count_le_one]
    intro name
    by_cases hmem : name ∈ registry.listed category
    · obtain ⟨entry, hentry, rfl⟩ := h.of_listed category name hmem
      exact (h.listed_once name entry hentry).le
    · rw [List.count_eq_zero.mpr hmem]
      exact Nat.zero_le 1
  refine List.Nodup.filterMap ?_ hlisted
  intro name other entry hname hother
  rw [Option.mem_def, h.current] at hname hother
  rw [← (lastNamed_spec hname).1, (lastNamed_spec hother).1]

/-- **The commands are those of the categories**, each of which has its own. -/
theorem all_perm (h : registry.Consistent commands) :
    registry.all.Perm (registry.categoryNames.flatMap registry.inCategory) ∧
      registry.categoryNames.Pairwise
        fun a b => (registry.inCategory a).Disjoint (registry.inCategory b) := by
  have hdisjoint : registry.categoryNames.Pairwise
      fun a b => (registry.inCategory a).Disjoint (registry.inCategory b) := by
    have hkeys : registry.categories.keys.Nodup := Std.TreeMap.nodup_keys
    refine hkeys.imp ?_
    intro a b hne entry ha hb
    exact hne ((h.mem_inCategory.mp ha).2.symm.trans (h.mem_inCategory.mp hb).2)
  refine ⟨?_, hdisjoint⟩
  have hall : registry.all.Nodup := h.nodup_map_name_all.of_map
  have hcategories : (registry.categoryNames.flatMap registry.inCategory).Nodup :=
    List.nodup_flatMap.mpr ⟨fun category _ => h.nodup_inCategory category, hdisjoint⟩
  rw [List.perm_ext_iff_of_nodup hall hcategories]
  intro entry
  rw [h.mem_all, List.mem_flatMap]
  constructor
  · intro hentry
    refine ⟨entry.description.category, ?_, h.mem_inCategory.mpr ⟨hentry, rfl⟩⟩
    -- the category is there because it lists the name
    rw [categoryNames, Std.TreeMap.mem_keys, Std.TreeMap.mem_iff_isSome_getElem?]
    have hcount := h.listed_once _ _ hentry
    rw [listed, Std.TreeMap.getD_eq_getD_getElem?] at hcount
    cases hnames : registry.categories[entry.description.category]? with
    | none =>
        rw [hnames] at hcount
        cases hcount
    | some names => rfl
  · rintro ⟨category, -, hmem⟩
    exact (h.mem_inCategory.mp hmem).1

end Consistent

/-! ## The result -/

/-- **A registry after any registrations.** The proper names are those registered, and each
leads to the command registered last under it. Whatever name leads to a command, the command
is one that counts, and the name is its own or one of its aliases. A proper name is listed
once in the category of its command and nowhere else, nothing else is listed, no category is
empty, and the commands are those of the categories, none of them in two. -/
theorem registerAll_spec (commands : List (Command α)) :
    let registry := ({} : Registry α).registerAll commands
    (∀ name, registry.proper[name]? = lastNamed commands name) ∧
      (∀ name entry, lastNamed commands name = some entry → registry.find? name = some entry) ∧
      (∀ key entry, registry.find? key = some entry →
        lastNamed commands entry.name = some entry ∧
          (key = entry.name ∨ key ∈ entry.description.aliases)) ∧
      (∀ name entry, lastNamed commands name = some entry → ∀ category,
        (registry.listed category).count name
          = if category = entry.description.category then 1 else 0) ∧
      (∀ category, ∀ name ∈ registry.listed category, (lastNamed commands name).isSome) ∧
      (∀ category ∈ registry.categoryNames, registry.listed category ≠ []) ∧
      registry.all.Perm (registry.categoryNames.flatMap registry.inCategory) ∧
      registry.categoryNames.Pairwise
        fun a b => (registry.inCategory a).Disjoint (registry.inCategory b) := by
  intro registry
  have h : registry.Consistent commands := consistent_registerAll commands
  refine ⟨h.current, h.find_current, h.found, ?_, ?_, ?_, h.all_perm⟩
  · intro name entry hentry category
    exact h.count_listed hentry category
  · intro category name hmem
    obtain ⟨entry, hentry, -⟩ := h.of_listed category name hmem
    rw [hentry, Option.isSome_some]
  · intro category hmem
    exact h.listed_ne_nil hmem

/-- A command registered twice, under another category the second time, with an alias that has
become the proper name of another command in between. -/
theorem registerAll_spec_replaced :
    let first : Command Unit :=
      { description := { name := "ls", category := "files", aliases := ["l", "dir"] }, action := () }
    let other : Command Unit :=
      { description := { name := "dir", category := "files", aliases := ["l"] }, action := () }
    let again : Command Unit :=
      { description := { name := "ls", category := "shell", aliases := ["dir"] }, action := () }
    let registry := ({} : Registry Unit).registerAll [first, other, again]
    registry.find? "ls" = some { serial := 2, command := again } ∧
      registry.find? "dir" = some { serial := 1, command := other } ∧
      (registry.listed "shell").count "ls" = 1 ∧ (registry.listed "files").count "ls" = 0 := by
  intro first other again registry
  obtain ⟨-, hfind, -, hcount, -⟩ := registerAll_spec [first, other, again]
  have hls : lastNamed [first, other, again] "ls" = some { serial := 2, command := again } := rfl
  have hdir : lastNamed [first, other, again] "dir" = some { serial := 1, command := other } := rfl
  exact ⟨hfind "ls" _ hls, hfind "dir" _ hdir, hcount "ls" _ hls "shell", hcount "ls" _ hls "files"⟩

end PocketShell.Registry
