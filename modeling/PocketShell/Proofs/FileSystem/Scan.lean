import PocketShell.Proofs.FileSystem.Children
import PocketShell.Proofs.Path.Normal
import PocketShell.Proofs.Text.ByteOrder

set_option autoImplicit false

/-! # The scan for the children of a folder

The children of a folder are looked for in one stretch of the paths of the overlay: from the first
path that is not before those below the folder, up to the first that does not start like them. Paths
are ordered by their bytes, and between two paths below a folder there are others: siblings of the
folder whose names go on where its name ends, and all that is further down. The scan finds the same
as a look at every path (`childrenOf_eq_filter`), since no path after the one at which it stops
starts as the children do (`not_child_of_stop`).

That the numbers tell the order of creation is seen from the writes that have made the overlay: its
paths are the written ones, each once, in the order in which they were written first
(`childrenOf_ofWrites`).
-/

namespace PocketShell.Overlay

open PocketShell.Path (IsCanonical parent root)

variable {overlay : Overlay} {dir path : String}

/-! ## The paths with a given parent -/

/-- **A path goes on from a folder with one name** exactly if the folder is its parent. The root
folder is its own parent and no child of itself. -/
theorem isChild_iff_parent (hdir : IsCanonical dir) (hpath : IsCanonical path) :
    isChild dir path = true ↔ path ≠ root ∧ parent path = dir := by
  rw [isChild_iff hpath]
  constructor
  · rintro ⟨name, hname, rfl⟩
    have hparent := hdir.parent_child hname
    refine ⟨fun hroot => ?_, hparent⟩
    -- the root has no name, and a child has one
    have hfile := hdir.fileName_child hname
    rw [hroot, Path.fileName_root] at hfile
    subst hfile
    cases hname
  · rintro ⟨hne, rfl⟩
    obtain ⟨hname, hchild⟩ := hpath.child_parent_fileName hne
    exact ⟨_, hname, hchild.symm⟩

/-- **The scan finds what a look at every path finds** that keeps those with the folder as their
parent. -/
theorem childrenOf_eq_filter
    (hkeys : ∀ (path : String) (id : Nat), overlay.paths[path]? = some id → IsCanonical path)
    (hdir : IsCanonical dir) :
    overlay.childrenOf dir
      = (overlay.paths.toList.filter fun entry =>
          entry.1 ≠ root ∧ parent entry.1 = dir).mergeSort fun a b => a.2 ≤ b.2 := by
  rw [childrenOf_eq]
  refine congrArg (List.mergeSort · _) (List.filter_congr ?_)
  rintro ⟨path, id⟩ hentry
  rw [Std.TreeMap.mem_toList_iff_getElem?_eq_some] at hentry
  rw [Bool.eq_iff_iff, decide_eq_true_iff]
  exact isChild_iff_parent hdir (hkeys path id hentry)

/-! ## Where the scan stops -/

/-- **No child stands after the path at which the scan stops**, the first one that is not before the
paths below the folder and does not start like them. -/
theorem not_child_of_stop {before after : List (String × Nat)} {stop : String × Nat}
    (hpaths : overlay.paths.toList = before ++ stop :: after)
    (hge : ¬ stop.1 < Path.below dir)
    (hstop : Text.startsWith stop.1 (Path.below dir) = false) :
    ∀ entry ∈ after, isChild dir entry.1 = false := by
  intro entry hentry
  have hordered := overlay.pairwise_lt_toList
  rw [hpaths, List.pairwise_append, List.pairwise_cons] at hordered
  have hlt : stop.1 < entry.1 := hordered.2.1.1 entry hentry
  have hprefix : ¬ (Path.below dir).toList <+: stop.1.toList := by
    rw [← Text.startsWith_iff, hstop]
    exact Bool.false_ne_true
  have hnot := Text.not_isPrefix_of_lt (String.lt_iff.not.mp hge) hprefix (String.lt_iff.mp hlt)
  rw [← Text.startsWith_iff, Bool.not_eq_true] at hnot
  rw [isChild, hnot, Bool.false_and]

/-! ## Overlays by the writes that have made them -/

/-- The overlay after some writes, each of which puts a node at a path. -/
def ofWrites (writes : List (String × Node)) : Overlay :=
  writes.foldl (fun overlay write => overlay.insert write.1 write.2) none

/-- The paths that are written, each once, in the order in which they are written first, and each
with its number. -/
def created (writes : List (String × Node)) : List (String × Nat) :=
  (writes.map Prod.fst).eraseDups.zipIdx

/-- What is created has been written. -/
theorem mem_of_mem_created {writes : List (String × Node)} {entry : String × Nat}
    (h : entry ∈ created writes) : entry.1 ∈ writes.map Prod.fst := by
  rw [← List.mem_eraseDups, ← List.zipIdx_map_fst 0 (writes.map Prod.fst).eraseDups]
  exact List.mem_map_of_mem h

theorem ofWrites_concat (writes : List (String × Node)) (path : String) (node : Node) :
    ofWrites (writes ++ [(path, node)]) = (ofWrites writes).insert path node := by
  rw [ofWrites, List.foldl_append]
  rfl

/-- A path that has been written before is not created again. -/
theorem created_concat_of_mem {writes : List (String × Node)} (h : path ∈ writes.map Prod.fst)
    (node : Node) : created (writes ++ [(path, node)]) = created writes := by
  rw [created, List.map_append, List.eraseDups_append]
  simp only [List.map_cons, List.map_nil, List.removeAll, List.filter_cons, List.filter_nil]
  simp [h, created]

/-- A new path is created last, with the next number. -/
theorem created_concat_of_notMem {writes : List (String × Node)}
    (h : path ∉ writes.map Prod.fst) (node : Node) :
    created (writes ++ [(path, node)]) = created writes ++ [(path, (created writes).length)] := by
  have hnew : [path].removeAll (writes.map Prod.fst) = [path] := by
    simpa [List.removeAll, List.filter_cons] using h
  have honce : [path].eraseDups = [path] := by simp [List.eraseDups_cons]
  rw [created, List.map_append, List.map_cons, List.map_nil, List.eraseDups_append, hnew, honce,
    List.zipIdx_append, created, List.length_zipIdx]
  simp

/-- The overlay has the written paths and no others. -/
theorem getElem?_ofWrites_eq_none_iff (writes : List (String × Node)) (path : String) :
    (ofWrites writes).paths[path]? = Option.none ↔ path ∉ writes.map Prod.fst := by
  induction writes using List.reverseRecOn with
  | nil => simp [ofWrites, none]
  | append_singleton writes write ih =>
      obtain ⟨written, node⟩ := write
      rw [ofWrites_concat, List.map_append, List.mem_append, not_or, ← ih]
      cases hold : (ofWrites writes).paths[written]? with
      | some id =>
          rw [insert_of_some hold]
          refine ⟨fun hnone => ⟨hnone, ?_⟩, fun h => h.1⟩
          rintro hmem
          obtain rfl : path = written := by simpa using hmem
          rw [hold] at hnone
          cases hnone
      | none =>
          rw [insert_of_none hold]
          dsimp only
          rw [getElem?_insert_string]
          split_ifs with heq
          · simp [heq]
          · simp [heq]

theorem exists_getElem?_ofWrites_iff {writes : List (String × Node)} {path : String} :
    (∃ id, (ofWrites writes).paths[path]? = some id) ↔ path ∈ writes.map Prod.fst := by
  rw [← Option.ne_none_iff_exists', Ne, getElem?_ofWrites_eq_none_iff, not_not]

theorem size_ofWrites (writes : List (String × Node)) :
    (ofWrites writes).nodes.size = (created writes).length := by
  induction writes using List.reverseRecOn with
  | nil => rfl
  | append_singleton writes write ih =>
      obtain ⟨path, node⟩ := write
      rw [ofWrites_concat]
      cases hold : (ofWrites writes).paths[path]? with
      | some id =>
          have hmem := exists_getElem?_ofWrites_iff.mp ⟨id, hold⟩
          rw [insert_of_some hold, created_concat_of_mem hmem, ← ih]
          exact Array.size_setIfInBounds
      | none =>
          have hnew := (getElem?_ofWrites_eq_none_iff writes path).mp hold
          rw [insert_of_none hold, created_concat_of_notMem hnew, List.length_append, ← ih]
          exact Array.size_push _

theorem wellFormed_ofWrites {writes : List (String × Node)}
    (h : ∀ write ∈ writes, IsCanonical write.1) : (ofWrites writes).WellFormed := by
  induction writes using List.reverseRecOn with
  | nil => exact wellFormed_none
  | append_singleton writes write ih =>
      rw [List.forall_mem_append, List.forall_mem_singleton] at h
      rw [ofWrites_concat]
      exact (ih h.1).insert h.2 write.2

/-- **The children of a folder stand in the order in which they were created**, each with the number
that its path got then. -/
theorem childrenOf_ofWrites {writes : List (String × Node)}
    (h : ∀ write ∈ writes, IsCanonical write.1) (dir : String) :
    (ofWrites writes).childrenOf dir
      = (created writes).filter fun entry => isChild dir entry.1 := by
  induction writes using List.reverseRecOn with
  | nil =>
      refine List.eq_nil_iff_forall_not_mem.mpr ?_
      rintro ⟨path, id⟩ hmem
      have hid := (mem_childrenOf.mp hmem).1
      rw [(getElem?_ofWrites_eq_none_iff [] path).mpr List.not_mem_nil] at hid
      cases hid
  | append_singleton writes write ih =>
      obtain ⟨path, node⟩ := write
      rw [List.forall_mem_append] at h
      have hbefore := ih h.1
      rw [ofWrites_concat]
      by_cases hmem : path ∈ writes.map Prod.fst
      · -- a path that is there keeps its number and its place
        obtain ⟨id, hold⟩ := exists_getElem?_ofWrites_iff.mpr hmem
        rw [childrenOf_insert_of_some hold, created_concat_of_mem hmem, hbefore]
      · have hnew := (getElem?_ofWrites_eq_none_iff writes path).mpr hmem
        rw [(wellFormed_ofWrites h.1).childrenOf_insert_of_none hnew, size_ofWrites, hbefore,
          created_concat_of_notMem hmem, List.filter_append, List.filter_singleton, Bool.cond_eq_ite]

/-! ## The scan is a full filter -/

/-- **The scan for the children of a folder equals a full filter.** In every overlay of canonical
paths, and for every canonical folder, it finds exactly the paths other than the root with the
folder as their parent, each with the number that it has, in the order of the numbers. The paths are
ordered by their bytes, and no child stands after the path at which the scan stops. In an overlay
that some writes have made the numbers tell the order of creation: the children are those among the
written paths, in the order in which they were written first. -/
theorem childrenOf_full_filter
    (hkeys : ∀ (path : String) (id : Nat), overlay.paths[path]? = some id → IsCanonical path)
    (hdir : IsCanonical dir) :
    (overlay.childrenOf dir
      = (overlay.paths.toList.filter fun entry =>
          entry.1 ≠ root ∧ parent entry.1 = dir).mergeSort fun a b => a.2 ≤ b.2) ∧
    (∀ path id, (path, id) ∈ overlay.childrenOf dir
      ↔ overlay.paths[path]? = some id ∧ path ≠ root ∧ parent path = dir) ∧
    ((overlay.childrenOf dir).Pairwise fun a b => a.2 ≤ b.2) ∧
    (overlay.paths.toList.Pairwise fun a b => Text.bytes a.1 < Text.bytes b.1) ∧
    (∀ before stop after, overlay.paths.toList = before ++ stop :: after →
      ¬ Text.bytes stop.1 < Text.bytes (Path.below dir) →
      Text.startsWith stop.1 (Path.below dir) = false →
      ∀ entry ∈ after, ¬ (entry.1 ≠ root ∧ parent entry.1 = dir)) ∧
    ∀ writes, overlay = ofWrites writes →
      ((overlay.childrenOf dir).Pairwise fun a b => a.2 < b.2) ∧
        overlay.childrenOf dir = (created writes).filter fun entry =>
          entry.1 ≠ root ∧ parent entry.1 = dir := by
  have hentries : ∀ entry ∈ overlay.paths.toList, IsCanonical entry.1 := fun entry hentry =>
    hkeys entry.1 entry.2 (Std.TreeMap.mem_toList_iff_getElem?_eq_some.mp hentry)
  refine ⟨childrenOf_eq_filter hkeys hdir, fun path id => ?_, ?_, ?_, ?_, ?_⟩
  · rw [mem_childrenOf]
    exact and_congr_right fun hid => isChild_iff_parent hdir (hkeys path id hid)
  · exact (overlay.pairwise_childrenOf dir).imp of_decide_eq_true
  · exact overlay.pairwise_lt_toList.imp Text.lt_iff_bytes_lt.mp
  · intro before stop after hpaths hge hstop entry hentry
    have hcanonical : IsCanonical entry.1 := by
      refine hentries entry ?_
      rw [hpaths]
      exact List.mem_append_right _ (List.mem_cons_of_mem _ hentry)
    have hnot := not_child_of_stop hpaths (mt Text.lt_iff_bytes_lt.mp hge) hstop entry hentry
    rw [← isChild_iff_parent hdir hcanonical, hnot]
    exact Bool.false_ne_true
  · rintro writes rfl
    have hwrites : ∀ write ∈ writes, IsCanonical write.1 := by
      intro write hwrite
      obtain ⟨id, hid⟩ := exists_getElem?_ofWrites_iff.mpr (List.mem_map_of_mem hwrite)
      exact hkeys write.1 id hid
    refine ⟨(wellFormed_ofWrites hwrites).pairwise_lt_childrenOf dir, ?_⟩
    rw [childrenOf_ofWrites hwrites]
    refine List.filter_congr ?_
    intro entry hentry
    obtain ⟨write, hwrite, hpath⟩ := List.mem_map.mp (mem_of_mem_created hentry)
    rw [Bool.eq_iff_iff, decide_eq_true_iff]
    exact isChild_iff_parent hdir (hpath ▸ hwrites write hwrite)

/-- A folder beside siblings whose names go on where its name ends, with characters before and after
the slash, with a descendant further down and with a child that is written twice. -/
theorem childrenOf_full_filter_siblings :
    let file : Node := { name := "file", kind := .file }
    let writes : List (String × Node) := [("/a!", file), ("/a", file), ("/a/z", file),
      ("/a/z/x", file), ("/a0", file), ("/a/é", file), ("/a/z", file), ("/a/!", file), ("/", file)]
    let overlay := ofWrites writes
    (∀ (path : String) (id : Nat), overlay.paths[path]? = some id → IsCanonical path) ∧
      IsCanonical "/a" ∧ overlay.childrenOf "/a" = [("/a/z", 2), ("/a/é", 5), ("/a/!", 6)] ∧
      ∀ path id, (path, id) ∈ overlay.childrenOf "/a"
        ↔ overlay.paths[path]? = some id ∧ path ≠ root ∧ parent path = "/a" := by
  intro file writes overlay
  have hnormal : ∀ write ∈ writes, Path.normalize write.1 = write.1 := by decide +kernel
  have hwrites : ∀ write ∈ writes, IsCanonical write.1 := fun write hwrite =>
    Path.normalize_eq_self_iff.mp (hnormal write hwrite)
  have hkeys : ∀ (path : String) (id : Nat), overlay.paths[path]? = some id → IsCanonical path :=
    fun _ _ => (wellFormed_ofWrites hwrites).canonical
  have hdir : IsCanonical "/a" := Path.normalize_eq_self_iff.mp (by decide)
  obtain ⟨-, hmem, -, -, -, hcreated⟩ := childrenOf_full_filter hkeys hdir
  refine ⟨hkeys, hdir, ?_, hmem⟩
  rw [(hcreated writes rfl).2]
  decide +kernel

end PocketShell.Overlay
