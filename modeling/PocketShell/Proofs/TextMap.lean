import Std.Data.TreeMap
import Mathlib.Tactic

set_option autoImplicit false

/-! # Maps from texts

What a look-up finds after a change of the map, with the keys compared by equality, and the
values of a map as those of its entries.
-/

namespace PocketShell

variable {β : Type}

/-- A look-up after an insertion, with the keys compared by equality. -/
theorem getElem?_insert_string (m : Std.TreeMap String β) (p q : String) (b : β) :
    (m.insert p b)[q]? = if q = p then some b else m[q]? := by
  simp only [Std.TreeMap.getElem?_insert, Std.compare_eq_iff_eq, @eq_comm _ p q]

/-- A look-up after a removal, with the keys compared by equality. -/
theorem getElem?_erase_string (m : Std.TreeMap String β) (p q : String) :
    (m.erase p)[q]? = if q = p then none else m[q]? := by
  simp only [Std.TreeMap.getElem?_erase, Std.compare_eq_iff_eq, @eq_comm _ p q]

/-- The values stand in the order of the keys. -/
theorem values_eq_map_toList (m : Std.TreeMap String β) : m.values = m.toList.map Prod.snd := by
  have hfold : m.values = m.foldr (fun _ value values => value :: values) [] := rfl
  rw [hfold, Std.TreeMap.foldr_eq_foldr_toList]
  induction m.toList with
  | nil => rfl
  | cons entry entries ih => rw [List.foldr_cons, ih, List.map_cons]

end PocketShell
