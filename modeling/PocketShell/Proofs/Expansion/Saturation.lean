import PocketShell.Proofs.Expansion

set_option autoImplicit false

/-! # Aliases that stand for aliases

The first word of a line is replaced as long as it is an alias that has not been replaced before,
and as long as there are passes left. Which aliases are replaced, and in which order, depends on the
line alone: fewer passes replace fewer of the same aliases (`expandAliases_saturates`). As none is
replaced twice, there cannot be more of them than the table has, so with as many passes as aliases
nothing is left to do.

A pass looks at the first word only, so what follows the first word takes no part in it and stays at
the end of the line (`expandAliases_keeps_arguments`).
-/

namespace PocketShell

/-! ## The first word -/

/-- The name that a line begins with: its text up to the first blank. -/
def leadingName (line : List Char) : String := String.ofList (line.takeWhile (· ≠ ' '))

/-- What follows the name that a line begins with. -/
def argumentsOf (line : List Char) : List Char := line.dropWhile (· ≠ ' ')

theorem ofList_firstWord (line : List Char) :
    String.ofList (firstWord line).1 = leadingName line := by
  rw [firstWord_eq, leadingName]

theorem firstWord_snd (line : List Char) : (firstWord line).2 = argumentsOf line := by
  rw [firstWord_eq, argumentsOf]

theorem leadingName_append_argumentsOf (line : List Char) :
    (leadingName line).toList ++ argumentsOf line = line := by
  rw [leadingName, String.toList_ofList, argumentsOf, List.takeWhile_append_dropWhile]

/-- What follows the name, if there is anything, begins with a blank. -/
theorem argumentsOf_cases (line : List Char) :
    argumentsOf line = [] ∨ ∃ args, argumentsOf line = ' ' :: args := by
  cases hargs : argumentsOf line with
  | nil => exact .inl rfl
  | cons c args =>
      have hhead := List.head?_dropWhile_not (· ≠ ' ') line
      rw [← argumentsOf, hargs] at hhead
      obtain rfl : c = ' ' := by simpa using hhead
      exact .inr ⟨args, rfl⟩

/-! ## Lines after replacements -/

variable {aliases : Std.TreeMap String String}

/-- **The line becomes the result** when the names, which are aliases, are replaced one after the
other, each where it is the name that the line begins with. -/
inductive Replaced (aliases : Std.TreeMap String String) :
    List Char → List String → List Char → Prop where
  | done (line : List Char) : Replaced aliases line [] line
  | next {line result : List Char} {value : String} {names : List String}
      (h : aliases[leadingName line]? = some value)
      (hrest : Replaced aliases (value.toList ++ argumentsOf line) names result) :
      Replaced aliases line (leadingName line :: names) result

namespace Replaced

variable {line between result : List Char} {first more names : List String}

theorem append (h : Replaced aliases line first between)
    (hmore : Replaced aliases between more result) :
    Replaced aliases line (first ++ more) result := by
  induction h with
  | done _ => exact hmore
  | next h _ ih => exact .next h (ih hmore)

/-- Fewer replacements lead to a line from which the others go on. -/
theorem split (h : Replaced aliases line (first ++ more) result) :
    ∃ between, Replaced aliases line first between ∧ Replaced aliases between more result := by
  induction first generalizing line with
  | nil => exact ⟨line, .done line, h⟩
  | cons name first ih =>
      cases h with
      | next h hrest =>
          obtain ⟨between, hfirst, hmore⟩ := ih hrest
          exact ⟨between, .next h hfirst, hmore⟩

/-- **The line determines what is replaced**: of two series of replacements one goes on with the
other. -/
theorem exists_append (h : Replaced aliases line first between)
    (hnames : Replaced aliases line names result) (hle : first.length ≤ names.length) :
    ∃ more, names = first ++ more ∧ Replaced aliases between more result := by
  induction h generalizing names with
  | done _ => exact ⟨names, rfl, hnames⟩
  | next h _ ih =>
      cases hnames with
      | done _ => exact absurd hle (Nat.not_succ_le_zero _)
      | next hvalue hrest =>
          obtain rfl := Option.some.inj (h.symm.trans hvalue)
          obtain ⟨more, rfl, hmore⟩ := ih hrest (Nat.le_of_succ_le_succ hle)
          exact ⟨more, rfl, hmore⟩

theorem isAlias (h : Replaced aliases line names result) : ∀ name ∈ names, name ∈ aliases := by
  induction h with
  | done _ => exact List.forall_mem_nil _
  | next h _ ih =>
      refine List.forall_mem_cons.mpr ⟨?_, ih⟩
      rw [Std.TreeMap.mem_iff_isSome_getElem?, h]
      rfl

/-- **There are no more names than aliases** if none is replaced twice. -/
theorem length_le_size (h : Replaced aliases line names result) (hnodup : names.Nodup) :
    names.length ≤ aliases.size := by
  have hkeys : names ⊆ aliases.keys := fun name hmem =>
    Std.TreeMap.mem_keys.mpr (h.isAlias name hmem)
  calc names.length ≤ aliases.keys.length := (hnodup.subperm hkeys).length_le
    _ = aliases.size := Std.TreeMap.length_keys

end Replaced

/-! ## One call -/

/-- **What an expansion with so many passes may do**: it replaces the names in their order, none
twice. Only before a name that is no alias, or that it has replaced already, it stops with passes
left. -/
structure Expands (aliases : Std.TreeMap String String) (passes : Nat) (line : List Char)
    (names : List String) (result : List Char) : Prop where
  replaced : Replaced aliases line names result
  nodup : names.Nodup
  within : names.length ≤ passes
  stops : names.length < passes →
    aliases[leadingName result]? = none ∨ leadingName result ∈ names

namespace Expands

variable {passes : Nat} {line result other : List Char} {names others : List String}

theorem eq_of_length_le (h : Expands aliases passes line names result)
    (hother : Expands aliases passes line others other) (hle : names.length ≤ others.length) :
    others = names ∧ other = result := by
  obtain ⟨more, rfl, hmore⟩ := h.replaced.exists_append hother.replaced hle
  cases hmore with
  | done _ => exact ⟨List.append_nil names, rfl⟩
  | next halias _ =>
      -- the longer one replaces a name before which the shorter one stops
      have hwithin := hother.within
      rw [List.length_append, List.length_cons] at hwithin
      rcases h.stops (by omega) with hnone | hmem
      · rw [hnone] at halias
        cases halias
      · have hdisjoint := (List.nodup_append.mp hother.nodup).2.2
        exact absurd rfl (hdisjoint _ hmem _ List.mem_cons_self)

/-- **An expansion is determined** by its line and the number of its passes. -/
theorem unique (h : Expands aliases passes line names result)
    (hother : Expands aliases passes line others other) : others = names ∧ other = result := by
  rcases Nat.le_total names.length others.length with hle | hle
  · exact h.eq_of_length_le hother hle
  · obtain ⟨hnames, hresult⟩ := hother.eq_of_length_le h hle
    exact ⟨hnames.symm, hresult.symm⟩

/-- **An expansion that stops with passes left** tells what any other number of passes does. -/
theorem exists_take (h : Expands aliases passes line names result) (hlt : names.length < passes)
    (others : Nat) :
    ∃ other, Expands aliases others line (names.take others) other ∧
      (names.length ≤ others → other = result) := by
  by_cases hle : names.length ≤ others
  · rw [List.take_of_length_le hle]
    exact ⟨result, ⟨h.replaced, h.nodup, hle, fun _ => h.stops hlt⟩, fun _ => rfl⟩
  · have hreplaced := h.replaced
    rw [← List.take_append_drop others names] at hreplaced
    obtain ⟨between, hbetween, -⟩ := hreplaced.split
    have hlength : (names.take others).length = others := List.length_take_of_le (by omega)
    refine ⟨between, ⟨hbetween, h.nodup.sublist (List.take_sublist _ _), hlength.le, ?_⟩,
      fun h => absurd h hle⟩
    exact fun hless => absurd hlength hless.ne

end Expands

/-- **Each pass goes on with the replacements before it.** What has been replaced so far is what the
loop keeps among its used names. -/
theorem exists_expands_replaceAliases {line current : List Char} {done used : List String}
    (h : Replaced aliases line done current) (hnodup : done.Nodup)
    (hused : ∀ name, name ∈ used ↔ name ∈ done) (passes : Nat) :
    ∃ names, Expands aliases (done.length + passes) line names
      (replaceAliases aliases used passes current) := by
  induction passes generalizing current done used with
  | zero => exact ⟨done, h, hnodup, le_rfl, fun hlt => absurd hlt (Nat.lt_irrefl _)⟩
  | succ passes ih =>
      rw [replaceAliases]
      simp only [ofList_firstWord, firstWord_snd]
      split_ifs with hcontains
      · have hmem : leadingName current ∈ done := (hused _).mp (List.contains_iff_mem.mp hcontains)
        exact ⟨done, h, hnodup, Nat.le_add_right _ _, fun _ => .inr hmem⟩
      · cases halias : aliases[leadingName current]? with
        | none => exact ⟨done, h, hnodup, Nat.le_add_right _ _, fun _ => .inl halias⟩
        | some value =>
            have hfresh : leadingName current ∉ done := fun hmem =>
              hcontains (List.contains_iff_mem.mpr ((hused _).mpr hmem))
            have hstep : Replaced aliases line (done ++ [leadingName current])
                (value.toList ++ argumentsOf current) := h.append (.next halias (.done _))
            have hnodup' : (done ++ [leadingName current]).Nodup :=
              hnodup.append (List.nodup_singleton _) (by simpa using hfresh)
            have hused' : ∀ name, name ∈ leadingName current :: used ↔
                name ∈ done ++ [leadingName current] := fun name => by simp [hused, or_comm]
            obtain ⟨names, hnames⟩ := ih hstep hnodup' hused'
            rw [List.length_append, List.length_singleton, Nat.add_assoc, Nat.add_comm 1] at hnames
            exact ⟨names, hnames⟩

theorem exists_expands (aliases : Std.TreeMap String String) (passes : Nat) (line : String) :
    ∃ names, Expands aliases passes line.toList names
      (expandAliases aliases passes line).toList := by
  have hused : ∀ name, name ∈ ([] : List String) ↔ name ∈ ([] : List String) := fun _ => Iff.rfl
  have hnothing : Replaced aliases line.toList [] line.toList := .done _
  obtain ⟨names, hnames⟩ := exists_expands_replaceAliases hnothing List.nodup_nil hused passes
  rw [List.length_nil, Nat.zero_add] at hnames
  exact ⟨names, by rwa [expandAliases, String.toList_ofList]⟩

/-- **With enough passes the expansion of aliases comes to its end**, for every table of aliases,
also for one with cycles. There is one series of different aliases, not longer than the table, of
which so many passes replace the first so many. -/
theorem expandAliases_saturates (aliases : Std.TreeMap String String) (line : String) :
    ∃ (full : String) (names : List String), names.length ≤ aliases.size ∧
      (aliases[leadingName full.toList]? = none ∨ leadingName full.toList ∈ names) ∧
      ∀ passes,
        Expands aliases passes line.toList (names.take passes)
          (expandAliases aliases passes line).toList ∧
        (∀ others result, Expands aliases passes line.toList others result →
          others = names.take passes ∧ result = (expandAliases aliases passes line).toList) ∧
        (aliases.size ≤ passes →
          expandAliases aliases passes line = full ∧ names.take passes = names) ∧
        ((names.take passes).length < passes → expandAliases aliases passes line = full) := by
  -- one pass more than there are aliases cannot be used up
  obtain ⟨names, hnames⟩ := exists_expands aliases (aliases.size + 1) line
  have hsize := hnames.replaced.length_le_size hnames.nodup
  have hlt : names.length < aliases.size + 1 := Nat.lt_succ_of_le hsize
  refine ⟨expandAliases aliases (aliases.size + 1) line, names, hsize, hnames.stops hlt,
    fun passes => ?_⟩
  obtain ⟨result, hresult, hfull⟩ := hnames.exists_take hlt passes
  obtain ⟨others, hothers⟩ := exists_expands aliases passes line
  obtain ⟨rfl, rfl⟩ := hresult.unique hothers
  have hend : names.length ≤ passes →
      expandAliases aliases passes line = expandAliases aliases (aliases.size + 1) line :=
    fun hle => String.toList_inj.mp (hfull hle)
  refine ⟨hresult, fun _ _ => hresult.unique, fun hle => ?_, fun hless => hend ?_⟩
  · exact ⟨hend (hsize.trans hle), List.take_of_length_le (hsize.trans hle)⟩
  · rw [List.length_take] at hless
    omega

/-- Three aliases in a circle and one beside it: two passes replace two of the circle, further
passes only the third, and the alias beside it leaves a pass unused. -/
theorem expandAliases_saturates_circle :
    let aliases : Std.TreeMap String String :=
      .ofList [("a", "b 1"), ("b", "c"), ("c", "a  2"), ("d", "echo")]
    (∀ passes, 4 ≤ passes → expandAliases aliases passes "a x" = "a  2 1 x") ∧
      Expands aliases 2 "a x".toList ["a", "b"] "c 1 x".toList ∧
      expandAliases aliases 2 "a x" = "c 1 x" ∧
      ∀ passes, 4 ≤ passes →
        expandAliases aliases 2 "d x" = expandAliases aliases passes "d x" := by
  intro aliases
  have ha : aliases[leadingName "a x".toList]? = some "b 1" := by decide +kernel
  have hb : aliases[leadingName "b 1 x".toList]? = some "c" := by decide +kernel
  have hd : aliases[leadingName "d x".toList]? = some "echo" := by decide +kernel
  have hcircle : Expands aliases 2 "a x".toList ["a", "b"] "c 1 x".toList :=
    ⟨.next ha (.next hb (.done _)), by decide, by decide, by decide⟩
  have hbeside : Expands aliases 2 "d x".toList ["d"] "echo x".toList :=
    ⟨.next hd (.done _), by decide, by decide, fun _ => .inl (by decide +kernel)⟩
  refine ⟨fun passes hle => ?_, hcircle, ?_, fun passes hle => ?_⟩
  · obtain ⟨full, names, -, -, hpasses⟩ := expandAliases_saturates aliases "a x"
    have hfour : expandAliases aliases 4 "a x" = "a  2 1 x" := by decide +kernel
    rw [((hpasses passes).2.2.1 hle).1, ← ((hpasses 4).2.2.1 le_rfl).1, hfour]
  · obtain ⟨full, names, -, -, hpasses⟩ := expandAliases_saturates aliases "a x"
    exact String.toList_inj.mp ((hpasses 2).2.1 _ _ hcircle).2.symm
  · obtain ⟨full, names, -, -, hpasses⟩ := expandAliases_saturates aliases "d x"
    have hnames : names.take 2 = ["d"] := ((hpasses 2).2.1 _ _ hbeside).1.symm
    rw [(hpasses 2).2.2.2 (by rw [hnames]; decide), ((hpasses passes).2.2.1 hle).1]

/-! ## What follows the first word -/

/-- The first word of a line ends before everything that is added after a blank. -/
theorem firstWord_append_blank (line args : List Char) :
    firstWord (line ++ ' ' :: args)
      = ((firstWord line).1, (firstWord line).2 ++ ' ' :: args) := by
  induction line with
  | nil => rfl
  | cons c line ih =>
      rw [List.cons_append, firstWord, firstWord, ih]
      by_cases hc : c = ' '
      · rw [if_pos hc, if_pos hc, List.cons_append]
      · rw [if_neg hc, if_neg hc]

theorem leadingName_append (line args : List Char) :
    leadingName (line ++ ' ' :: args) = leadingName line := by
  rw [← ofList_firstWord, ← ofList_firstWord, firstWord_append_blank]

theorem argumentsOf_append (line args : List Char) :
    argumentsOf (line ++ ' ' :: args) = argumentsOf line ++ ' ' :: args := by
  rw [← firstWord_snd, ← firstWord_snd, firstWord_append_blank]

theorem Replaced.append_arguments {line result : List Char} {names : List String}
    (h : Replaced aliases line names result) (args : List Char) :
    Replaced aliases (line ++ ' ' :: args) names (result ++ ' ' :: args) := by
  induction h with
  | done line => exact .done _
  | @next line _ value _ h _ ih =>
      rw [← leadingName_append line args] at h ⊢
      rw [List.append_assoc, ← argumentsOf_append] at ih
      exact .next h ih

theorem Expands.append_arguments {passes : Nat} {line result : List Char} {names : List String}
    (h : Expands aliases passes line names result) (args : List Char) :
    Expands aliases passes (line ++ ' ' :: args) names (result ++ ' ' :: args) := by
  refine ⟨h.replaced.append_arguments args, h.nodup, h.within, fun hlt => ?_⟩
  rw [leadingName_append]
  exact h.stops hlt

/-- **What follows the first word stays as it is**, at the end of the line, whatever is replaced
before it, and has no part in what is replaced. -/
theorem expandAliases_keeps_arguments (aliases : Std.TreeMap String String) (passes : Nat) :
    (∀ words args : String, expandAliases aliases passes (words ++ " " ++ args)
        = expandAliases aliases passes words ++ " " ++ args) ∧
      ∀ line : String, argumentsOf line.toList <:+ (expandAliases aliases passes line).toList := by
  have happend : ∀ words args : String, expandAliases aliases passes (words ++ " " ++ args)
      = expandAliases aliases passes words ++ " " ++ args := by
    intro words args
    obtain ⟨names, hnames⟩ := exists_expands aliases passes words
    obtain ⟨others, hothers⟩ := exists_expands aliases passes (words ++ " " ++ args)
    have hline : (words ++ " " ++ args).toList = words.toList ++ ' ' :: args.toList := by simp
    have hexpands := hnames.append_arguments args.toList
    rw [← hline] at hexpands
    obtain ⟨-, hresult⟩ := hexpands.unique hothers
    rw [← String.toList_inj, hresult]
    simp
  refine ⟨happend, fun line => ?_⟩
  rcases argumentsOf_cases line.toList with hnil | ⟨args, hargs⟩
  · rw [hnil]
    exact List.nil_suffix
  · have hwords : line = leadingName line.toList ++ " " ++ String.ofList args := by
      refine String.toList_inj.mp ((leadingName_append_argumentsOf _).symm.trans ?_)
      rw [hargs]
      simp
    rw [hargs, hwords, happend]
    simp

end PocketShell
