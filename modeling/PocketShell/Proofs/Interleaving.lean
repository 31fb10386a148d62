import Mathlib.Tactic

set_option autoImplicit false

/-! # Lists put together from two

A list is put together from two others if it goes on with the first element of one of them at each
step. The elements with a property and those without are two such lists (`interleaves_filter`), and
if the list is in order, merging them gives it back (`Interleaves.merge_eq`).
-/

namespace PocketShell

variable {α β : Type}

/-- The last list is put together from the other two, each of which keeps its order. -/
inductive Interleaves : List α → List α → List α → Prop
  | nil : Interleaves [] [] []
  | left {x : α} {xs ys zs : List α} (h : Interleaves xs ys zs) : Interleaves (x :: xs) ys (x :: zs)
  | right {y : α} {xs ys zs : List α} (h : Interleaves xs ys zs) :
      Interleaves xs (y :: ys) (y :: zs)

/-- A list is put together from the elements with a property and those without. -/
theorem interleaves_filter (p : α → Bool) (zs : List α) :
    Interleaves (zs.filter p) (zs.filter fun z => !p z) zs := by
  induction zs with
  | nil => exact .nil
  | cons z zs ih =>
      by_cases hz : p z = true
      · rw [List.filter_cons_of_pos hz, List.filter_cons_of_neg (by simp [hz])]
        exact .left ih
      · rw [List.filter_cons_of_neg hz, List.filter_cons_of_pos (by simp [hz])]
        exact .right ih

namespace Interleaves

variable {xs ys zs : List α}

theorem map (h : Interleaves xs ys zs) (f : α → β) :
    Interleaves (xs.map f) (ys.map f) (zs.map f) := by
  induction h with
  | nil => exact .nil
  | left _ ih => exact .left ih
  | right _ ih => exact .right ih

/-- Nothing is lost and nothing is repeated. -/
theorem perm (h : Interleaves xs ys zs) : (xs ++ ys).Perm zs := by
  induction h with
  | nil => exact .nil
  | left _ ih => exact ih.cons _
  | right _ ih => exact List.perm_middle.trans (ih.cons _)

theorem length_eq (h : Interleaves xs ys zs) : xs.length + ys.length = zs.length := by
  rw [← List.length_append]
  exact h.perm.length_eq

/-- **Merging gives the list back** if each of its elements stands before all later ones. -/
theorem merge_eq {le : α → α → Bool} (h : Interleaves xs ys zs)
    (hzs : zs.Pairwise fun a b => le a b = true ∧ le b a = false) : xs.merge ys le = zs := by
  induction h with
  | nil => exact List.nil_merge []
  | @left x xs ys zs h ih =>
      obtain ⟨hx, hzs⟩ := List.pairwise_cons.mp hzs
      cases ys with
      | nil => rw [List.merge_right, ← ih hzs, List.merge_right]
      | cons y ys =>
          -- the other list waits with an element that comes later
          have hy : y ∈ zs := h.perm.mem_iff.mp (by simp)
          rw [List.cons_merge_cons_pos _ _ _ (hx y hy).1, ih hzs]
  | @right y xs ys zs h ih =>
      obtain ⟨hy, hzs⟩ := List.pairwise_cons.mp hzs
      cases xs with
      | nil => rw [List.nil_merge, ← ih hzs, List.nil_merge]
      | cons x xs =>
          have hx : x ∈ zs := h.perm.mem_iff.mp (by simp)
          have hlater : ¬ le x y = true := by simp [(hy x hx).2]
          rw [List.cons_merge_cons_neg _ _ _ hlater, ih hzs]

end Interleaves

end PocketShell
