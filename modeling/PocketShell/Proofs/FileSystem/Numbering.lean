import PocketShell.Proofs.Path.Canonical
import PocketShell.Proofs.TextMap

set_option autoImplicit false

/-! # Numbered paths

The base and the overlay both keep their nodes in an array and lead from a path to the number
of its node. In both, the paths are numbered one after the other: a path is canonical, no two
paths have one number, and the numbers are those below the size of the array.
-/

namespace PocketShell

/-- **The invariant of both stores**: canonical paths, numbered from zero up to `count`. -/
structure Numbering (index : Std.TreeMap String Nat) (count : Nat) : Prop where
  canonical : ∀ {path : String} {id : Nat}, index[path]? = some id → Path.IsCanonical path
  lt_count : ∀ {path : String} {id : Nat}, index[path]? = some id → id < count
  inj : ∀ {path other : String} {id : Nat}, index[path]? = some id →
    index[other]? = some id → path = other
  onto : ∀ {id : Nat}, id < count → ∃ path : String, index[path]? = some id

namespace Numbering

variable {index : Std.TreeMap String Nat} {count : Nat}

theorem empty : Numbering ∅ 0 where
  canonical h := by simp at h
  lt_count h := by simp at h
  inj h := by simp at h
  onto h := absurd h (Nat.not_lt_zero _)

/-- A new path gets the next number. -/
theorem insert (h : Numbering index count) {path : String} (hp : Path.IsCanonical path)
    (hnew : index[path]? = none) : Numbering (index.insert path count) (count + 1) := by
  refine ⟨?_, ?_, ?_, ?_⟩
  · intro q id hq
    rw [getElem?_insert_string] at hq
    split_ifs at hq with hqp
    · rwa [hqp]
    · exact h.canonical hq
  · intro q id hq
    rw [getElem?_insert_string] at hq
    split_ifs at hq with hqp
    · have := Option.some.inj hq
      omega
    · exact Nat.lt_succ_of_lt (h.lt_count hq)
  · intro q r id hq hr
    rw [getElem?_insert_string] at hq hr
    split_ifs at hq hr with hqp hrp hrp
    · rw [hqp, hrp]
    · have := h.lt_count hr
      have := Option.some.inj hq
      omega
    · have := h.lt_count hq
      have := Option.some.inj hr
      omega
    · exact h.inj hq hr
  · intro id hid
    rcases Nat.lt_succ_iff_lt_or_eq.mp hid with hid | rfl
    · obtain ⟨q, hq⟩ := h.onto hid
      have hne : q ≠ path := by
        rintro rfl
        rw [hnew] at hq
        cases hq
      exact ⟨q, by rw [getElem?_insert_string, if_neg hne, hq]⟩
    · exact ⟨path, by rw [getElem?_insert_string, if_pos rfl]⟩

end Numbering

end PocketShell
