import PocketShell.Proofs.Shell.Registry

set_option autoImplicit false

/-! # Aliases that several commands declare

A later registration takes an alias over from an earlier one, and when a command is replaced
all names that lead to it are taken away, those that it has taken over among them. So an alias
that is no proper name leads to the command that has declared it last, as long as that command
counts, and to nothing afterwards: the earlier command does not get its alias back.

What a name leads to can thus be told from the registrations alone (`find?_registerAll`). From
this follows when an alias of a command that counts leads nowhere (`find?_alias_iff`).
-/

namespace PocketShell.Registry

variable {α : Type}

/-! ## The last declaration -/

/-- The last registration that declares an alias. -/
def lastDeclaring (commands : List (Command α)) (key : String) : Option (Registered α) :=
  ((entries commands).filter fun entry => key ∈ entry.description.aliases).getLast?

/-- Whether a registration counts for its proper name. -/
def counts (commands : List (Command α)) (entry : Registered α) : Bool :=
  (lastNamed commands entry.name).any entry.same

/-- **One more registration has the last word on its own aliases.** -/
theorem lastDeclaring_concat (commands : List (Command α)) (command : Command α) (key : String) :
    lastDeclaring (commands ++ [command]) key
      = if key ∈ command.description.aliases then some { serial := commands.length, command }
        else lastDeclaring commands key := by
  have haliases : ({ serial := commands.length, command } : Registered α).description.aliases
      = command.description.aliases := rfl
  rw [lastDeclaring, lastDeclaring, entries_concat, List.filter_append, List.getLast?_append,
    List.filter_cons, haliases]
  by_cases hmem : key ∈ command.description.aliases
  · simp [hmem]
  · simp [hmem]

theorem mem_entries_of_lastDeclaring {commands : List (Command α)} {key : String}
    {entry : Registered α} (h : lastDeclaring commands key = some entry) :
    entry ∈ entries commands :=
  (List.mem_filter.mp (List.mem_of_getLast? h)).1

/-- An alias that some registration declares has a last declaration. -/
theorem exists_lastDeclaring {commands : List (Command α)} {key : String} {entry : Registered α}
    (hentry : entry ∈ entries commands) (hkey : key ∈ entry.description.aliases) :
    ∃ owner, lastDeclaring commands key = some owner := by
  have hmem : entry ∈ (entries commands).filter fun entry => key ∈ entry.description.aliases :=
    List.mem_filter.mpr ⟨hentry, decide_eq_true hkey⟩
  exact ⟨_, List.getLast?_eq_some_getLast (List.ne_nil_of_mem hmem)⟩

theorem counts_iff {commands : List (Command α)} {entry : Registered α}
    (h : entry ∈ entries commands) :
    counts commands entry = true ↔ lastNamed commands entry.name = some entry := by
  rw [counts, Option.any_eq_true]
  constructor
  · rintro ⟨last, hlast, hsame⟩
    -- equal serial numbers mean the same place among the registrations
    have hserial : entry.serial = last.serial := by simpa [Registered.same] using hsame
    have hcommand := (lastNamed_spec hlast).2
    rw [← hserial, mem_entries.mp h] at hcommand
    obtain ⟨serial, command⟩ := entry
    obtain ⟨serial', command'⟩ := last
    obtain rfl : serial = serial' := hserial
    obtain rfl : command = command' := Option.some.inj hcommand
    exact hlast
  · intro hlast
    exact ⟨entry, hlast, beq_self_eq_true entry.serial⟩

/-- **An earlier registration goes on to count** unless the new one has its name. -/
theorem counts_concat {commands : List (Command α)} {entry : Registered α}
    (h : entry ∈ entries commands) (command : Command α) :
    counts (commands ++ [command]) entry
      = (counts commands entry && decide (entry.name ≠ command.description.name)) := by
  rw [counts, counts, lastNamed_concat]
  split_ifs with hname
  · have hlt : entry.serial < commands.length :=
      (List.getElem?_eq_some_iff.mp (mem_entries.mp h)).1
    have hother : (entry.serial == commands.length) = false := by simpa using hlt.ne
    simpa [hname, Registered.same] using hother
  · simp [hname]

/-! ## What names lead to -/

/-- **What a name leads to after any registrations**: the command with this proper name, or
else the command that has declared the name last, if it still counts. -/
theorem find?_registerAll (commands : List (Command α)) (key : String) :
    (({} : Registry α).registerAll commands).find? key
      = (lastNamed commands key).or ((lastDeclaring commands key).filter (counts commands)) := by
  induction commands using List.reverseRecOn with
  | nil => exact Std.TreeMap.getElem?_emptyc
  | append_singleton commands command ih =>
      have hregistry := consistent_registerAll commands
      have hstep : ({} : Registry α).registerAll (commands ++ [command])
          = (({} : Registry α).registerAll commands).register command := by
        rw [registerAll, List.foldl_append]
        rfl
      rw [hstep, hregistry.find?_register, hregistry.current, hregistry.serial_eq,
        lastNamed_concat, lastDeclaring_concat]
      by_cases hname : key = command.description.name
      · rw [if_pos hname, if_pos hname, Option.some_or]
      rw [if_neg hname, if_neg hname, ih]
      cases hlast : lastNamed commands key with
      | some entry =>
          -- another proper name is neither taken over nor taken away
          have hne : entry.name ≠ command.description.name := by
            rw [(lastNamed_spec hlast).1]
            exact hname
          simp [hne]
      | none =>
          by_cases halias : key ∈ command.description.aliases
          · have hcounts : counts (commands ++ [command])
                { serial := commands.length, command } = true := by
              rw [counts, lastNamed_concat]
              simp [Registered.name, Registered.description, Registered.same]
            rw [if_pos ⟨halias, rfl⟩, if_pos halias, Option.none_or, Option.filter_some,
              if_pos hcounts]
          · rw [if_neg (fun h => halias h.1), if_neg halias, Option.none_or, Option.none_or]
            cases howner : lastDeclaring commands key with
            | none => rfl
            | some owner =>
                have hmem := mem_entries_of_lastDeclaring howner
                rw [Option.filter_filter, Option.filter_some, Option.filter_some,
                  counts_concat hmem]

/-- **When an alias leads to a command.** An alias of a command that counts has been declared
last by some registration. It leads to a command, and then to one that counts, exactly if it is
also a proper name or if that registration still counts. -/
theorem find?_alias_iff {commands : List (Command α)} {name key : String} {entry : Registered α}
    (h : lastNamed commands name = some entry) (hkey : key ∈ entry.description.aliases) :
    ∃ owner, lastDeclaring commands key = some owner ∧
      ((∃ found, (({} : Registry α).registerAll commands).find? key = some found ∧
          lastNamed commands found.name = some found) ↔
        (lastNamed commands key).isSome ∨ lastNamed commands owner.name = some owner) := by
  obtain ⟨owner, howner⟩ := exists_lastDeclaring (mem_entries.mpr (lastNamed_spec h).2) hkey
  have hcounts := counts_iff (mem_entries_of_lastDeclaring howner)
  refine ⟨owner, howner, ?_⟩
  rw [find?_registerAll, howner]
  cases hlast : lastNamed commands key with
  | some named =>
      refine iff_of_true ⟨named, Option.some_or, ?_⟩ (Or.inl rfl)
      rw [(lastNamed_spec hlast).1, hlast]
  | none =>
      rw [Option.none_or, Option.filter_some]
      constructor
      · rintro ⟨found, hfound, -⟩
        refine Or.inr (hcounts.mp ?_)
        by_contra hno
        rw [if_neg hno] at hfound
        cases hfound
      · rintro (hsome | hcurrent)
        · cases hsome
        · exact ⟨owner, if_pos (hcounts.mpr hcurrent), hcurrent⟩

/-- Two commands declare the alias `x`. The second one takes it over and keeps it when the first
one is registered again without it. -/
theorem find?_alias_iff_kept :
    let first : Command Unit := { description := { name := "a", aliases := ["x"] }, action := () }
    let second : Command Unit := { description := { name := "b", aliases := ["x"] }, action := () }
    let third : Command Unit := { description := { name := "a" }, action := () }
    let commands := [first, second, third]
    lastNamed commands "b" = some { serial := 1, command := second } ∧
      "x" ∈ second.description.aliases ∧
      ∃ found, (({} : Registry Unit).registerAll commands).find? "x" = some found ∧
        lastNamed commands found.name = some found := by
  intro first second third commands
  have hcurrent : lastNamed commands "b" = some { serial := 1, command := second } := rfl
  have halias : "x" ∈ second.description.aliases := by decide
  obtain ⟨owner, howner, hiff⟩ := find?_alias_iff hcurrent halias
  have hlast : lastDeclaring commands "x" = some { serial := 1, command := second } := rfl
  rw [hlast] at howner
  obtain rfl := Option.some.inj howner
  exact ⟨hcurrent, halias, hiff.mpr (Or.inr hcurrent)⟩

/-- Two commands declare the alias `x`. The second one takes it over and is then replaced by one
without aliases: the first command still counts and still declares `x`, which leads nowhere. -/
theorem alias_lost :
    let first : Command Unit := { description := { name := "a", aliases := ["x"] }, action := () }
    let second : Command Unit := { description := { name := "b", aliases := ["x"] }, action := () }
    let third : Command Unit := { description := { name := "b" }, action := () }
    let registry := ({} : Registry Unit).registerAll [first, second, third]
    registry.find? "a" = some { serial := 0, command := first } ∧
      lastNamed [first, second, third] "a" = some { serial := 0, command := first } ∧
      "x" ∈ first.description.aliases ∧ registry.find? "x" = none := by
  intro first second third registry
  refine ⟨?_, rfl, by decide, ?_⟩
  · rw [find?_registerAll]
    rfl
  · rw [find?_registerAll]
    rfl

end PocketShell.Registry
