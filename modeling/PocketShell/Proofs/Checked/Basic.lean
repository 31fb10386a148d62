import Mathlib.Data.String.Basic
import Mathlib.Tactic
import PocketShell.Text.Search

set_option autoImplicit false

/-! # Operations that can be out of range

A number that is held in a word is neither negative nor above the limit of the word, nothing can be
divided by zero, a list has no elements past its end, and a text is held in bytes and can be cut at
an offset only where a character ends. The operations of this file give `none` where they are out of
range, so a function that is written with them gives `none` if one of its operations is. To say that
the function never is out of range is to say that it gives `some` for every argument.

A text is given by its characters, which take `String.utf8Len` bytes. That the cuts which `divide`
allows are those at a boundary of the string in the sense of the library is
`Checked.isSome_divide`.
-/

namespace PocketShell.Checked

/-! ## Numbers -/

/-- A sum that has to fit into a word. -/
def add (limit a b : Nat) : Option Nat := if a + b ≤ limit then some (a + b) else none

/-- A product that has to fit into a word. -/
def mul (limit a b : Nat) : Option Nat := if a * b ≤ limit then some (a * b) else none

/-- A difference, which must not be negative. -/
def sub (a b : Nat) : Option Nat := if b ≤ a then some (a - b) else none

/-- A remainder, of a division that must not be one by zero. -/
def rem (a b : Nat) : Option Nat := if b = 0 then none else some (a % b)

variable {limit a b : Nat}

theorem add_eq (h : a + b ≤ limit) : add limit a b = some (a + b) := if_pos h

theorem mul_eq (h : a * b ≤ limit) : mul limit a b = some (a * b) := if_pos h

theorem sub_eq (h : b ≤ a) : sub a b = some (a - b) := if_pos h

theorem rem_eq (h : 0 < b) : rem a b = some (a % b) := if_neg (by omega)

/-! ## Lists -/

/-- What is left of a list after some elements, which it has to have. -/
def drop {α : Type} (xs : List α) (n : Nat) : Option (List α) :=
  if n ≤ xs.length then some (xs.drop n) else none

/-- The elements of a list that a test, which may fail, lets through. -/
def filter {α : Type} (test : α → Option Bool) : List α → Option (List α)
  | [] => some []
  | a :: as => do
      let passes ← test a
      let others ← filter test as
      return if passes then a :: others else others

theorem filter_eq {α : Type} {test : α → Option Bool} {q : α → Bool} {as : List α}
    (h : ∀ a ∈ as, test a = some (q a)) : filter test as = some (as.filter q) := by
  induction as with
  | nil => rfl
  | cons a as ih =>
      obtain ⟨ha, has⟩ := List.forall_mem_cons.mp h
      rw [filter, ha, ih has, List.filter_cons]
      rfl

/-- A step that never fails leaves nothing out. -/
theorem mapM_eq_filterMap {α β : Type} {f : α → Option β} {as : List α}
    (h : ∀ a ∈ as, (f a).isSome = true) : as.mapM f = some (as.filterMap f) := by
  induction as with
  | nil => rfl
  | cons a as ih =>
      obtain ⟨ha, has⟩ := List.forall_mem_cons.mp h
      obtain ⟨b, hb⟩ := Option.isSome_iff_exists.mp ha
      rw [List.mapM_cons, hb, ih has, List.filterMap_cons_some hb]
      rfl

/-! ## Cutting texts -/

/-- The text before and after an offset in bytes, which has to be the end of a character or the
start of the text. -/
def divide : List Char → Nat → Option (List Char × List Char)
  | cs, 0 => some ([], cs)
  | [], _ + 1 => none
  | c :: cs, n + 1 =>
      if c.utf8Size ≤ n + 1 then
        (divide cs (n + 1 - c.utf8Size)).map fun (before, after) => (c :: before, after)
      else none

/-- The text up to an offset. -/
def upTo (cs : List Char) (stop : Nat) : Option (List Char) := (divide cs stop).map Prod.fst

/-- The text from an offset on. -/
def startingAt (cs : List Char) (start : Nat) : Option (List Char) :=
  (divide cs start).map Prod.snd

/-- The text from one offset up to another. -/
def between (cs : List Char) (start stop : Nat) : Option (List Char) := do
  startingAt (← upTo cs stop) start

theorem divide_append (before after : List Char) :
    divide (before ++ after) (String.utf8Len before) = some (before, after) := by
  induction before with
  | nil =>
      rw [List.nil_append, String.utf8Len_nil]
      cases after <;> rfl
  | cons c before ih =>
      have hpos := c.utf8Size_pos
      rw [List.cons_append, String.utf8Len_cons]
      obtain ⟨n, hn⟩ : ∃ n, String.utf8Len before + c.utf8Size = n + 1 :=
        ⟨String.utf8Len before + c.utf8Size - 1, by omega⟩
      have hrest : n + 1 - c.utf8Size = String.utf8Len before := by omega
      rw [hn, divide, if_pos (by omega), hrest, ih]
      rfl

/-- **A cut divides a text into two** of which the first takes as many bytes as the offset
says. -/
theorem divide_eq_some_iff {cs before after : List Char} {n : Nat} :
    divide cs n = some (before, after) ↔ cs = before ++ after ∧ n = String.utf8Len before := by
  constructor
  · intro h
    induction cs generalizing n before with
    | nil =>
        cases n with
        | zero =>
            obtain ⟨rfl, rfl⟩ := Prod.mk.inj (Option.some.inj h)
            exact ⟨rfl, rfl⟩
        | succ n => cases h
    | cons c cs ih =>
        cases n with
        | zero =>
            obtain ⟨rfl, rfl⟩ := Prod.mk.inj (Option.some.inj h)
            exact ⟨rfl, rfl⟩
        | succ n =>
            rw [divide] at h
            split_ifs at h with hfits
            obtain ⟨⟨first, rest⟩, hdivide, heq⟩ := Option.map_eq_some_iff.mp h
            obtain ⟨rfl, rfl⟩ := Prod.mk.inj heq
            obtain ⟨rfl, hn⟩ := ih hdivide
            refine ⟨rfl, ?_⟩
            rw [String.utf8Len_cons]
            omega
  · rintro ⟨rfl, rfl⟩
    exact divide_append before after

/-- The offsets at which a text can be cut are the boundaries of the string. -/
theorem isSome_divide (s : String) (n : Nat) :
    (divide s.toList n).isSome = true ↔ String.Pos.Raw.IsValid s ⟨n⟩ := by
  rw [String.Pos.Raw.isValid_iff_exists_append, Option.isSome_iff_exists]
  constructor
  · rintro ⟨⟨before, after⟩, h⟩
    obtain ⟨hs, rfl⟩ := divide_eq_some_iff.mp h
    refine ⟨String.ofList before, String.ofList after, ?_, ?_⟩
    · rw [← String.ofList_append, ← hs, String.ofList_toList]
    · rw [String.rawEndPos, String.utf8ByteSize_ofList]
  · rintro ⟨before, after, rfl, hn⟩
    refine ⟨(before.toList, after.toList), divide_eq_some_iff.mpr ⟨String.toList_append, ?_⟩⟩
    have hn := congrArg String.Pos.Raw.byteIdx hn
    rw [← String.utf8ByteSize_ofList, String.ofList_toList]
    exact hn

theorem upTo_append (before after : List Char) :
    upTo (before ++ after) (String.utf8Len before) = some before := by
  rw [upTo, divide_append]
  rfl

theorem startingAt_append (before after : List Char) :
    startingAt (before ++ after) (String.utf8Len before) = some after := by
  rw [startingAt, divide_append]
  rfl

/-- The stretch of a text after another and before a third. -/
theorem between_append (before stretch after : List Char) :
    between (before ++ (stretch ++ after)) (String.utf8Len before)
      (String.utf8Len before + String.utf8Len stretch) = some stretch := by
  rw [between, ← List.append_assoc, ← String.utf8Len_append, upTo_append]
  exact startingAt_append before stretch

/-! ## Finding characters -/

/-- The offset of the first `mark`. -/
def find (mark : Char) : List Char → Option Nat
  | [] => none
  | c :: cs => if c = mark then some 0 else (find mark cs).map (c.utf8Size + ·)

/-- The offset of the last `mark`. -/
def findLast (mark : Char) : List Char → Option Nat
  | [] => none
  | c :: cs =>
      match findLast mark cs with
      | some n => some (c.utf8Size + n)
      | none => if c = mark then some 0 else none

variable {mark : Char}

theorem find_eq (cs : List Char) :
    find mark cs = (Text.cut? mark cs).map fun cut => String.utf8Len cut.1 := by
  induction cs with
  | nil => rfl
  | cons c cs ih =>
      rw [find, Text.cut?]
      split_ifs with hc
      · rfl
      · rw [ih, Option.map_map, Option.map_map]
        congr 1
        funext cut
        exact Nat.add_comm _ _

theorem findLast_of_notMem {cs : List Char} (h : mark ∉ cs) : findLast mark cs = none := by
  induction cs with
  | nil => rfl
  | cons c cs ih =>
      obtain ⟨hc, hcs⟩ := not_or.mp (mt List.mem_cons.mpr h)
      rw [findLast, ih hcs, if_neg (Ne.symm hc)]

theorem findLast_append (before : List Char) {after : List Char} (h : mark ∉ after) :
    findLast mark (before ++ mark :: after) = some (String.utf8Len before) := by
  induction before with
  | nil => rw [List.nil_append, findLast, findLast_of_notMem h, if_pos rfl, String.utf8Len_nil]
  | cons c before ih => rw [List.cons_append, findLast, ih, String.utf8Len_cons, Nat.add_comm]

/-- A text without a `mark`, or one in which the last `mark` is found. -/
theorem findLast_cases (mark : Char) (cs : List Char) :
    (mark ∉ cs ∧ findLast mark cs = none) ∨
      ∃ before after, cs = before ++ mark :: after ∧ mark ∉ after ∧
        findLast mark cs = some (String.utf8Len before) := by
  by_cases h : mark ∈ cs
  · right
    obtain ⟨after, before, hcs, hafter⟩ := List.eq_append_cons_of_mem (List.mem_reverse.mpr h)
    have hcs : cs = before.reverse ++ mark :: after.reverse := by
      rw [← List.reverse_reverse cs, hcs]
      simp
    have hafter : mark ∉ after.reverse := by rwa [List.mem_reverse]
    exact ⟨_, _, hcs, hafter, hcs ▸ findLast_append _ hafter⟩
  · exact .inl ⟨h, findLast_of_notMem h⟩

end PocketShell.Checked
