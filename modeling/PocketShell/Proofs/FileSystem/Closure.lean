import PocketShell.Proofs.FileSystem.Refinement

set_option autoImplicit false

/-! # The existing paths form a tree

In every state of a file system the existing paths are closed under going to the parent: the
parent of an existing path exists and is a folder, up to the root. The same is true of the
base alone.

Both stores show a plain tree, and what a walk reaches is closed in this sense because only
folders have entries (`treeClosed_of_look`). For the states of a file system the tree is the
one of the plain files that mirror it.
-/

namespace PocketShell

open PocketShell.Path (AllNames ofNames isName)

/-- **A store of nodes is tree-closed**: it has a folder at the root, all its paths are
canonical, each lies in a folder of the store, and each node has the last name of its path. -/
structure TreeClosed (nodeAt : String → Option Node) : Prop where
  root : ∃ node, nodeAt Path.root = some node ∧ node.isFolder = true
  canonical : ∀ path node, nodeAt path = some node → Path.IsCanonical path
  parent : ∀ path node, nodeAt path = some node → path ≠ Path.root →
    ∃ folder, nodeAt (Path.parent path) = some folder ∧ folder.isFolder = true
  name_eq : ∀ path node, nodeAt path = some node → node.name = Path.fileName path

/-- **A store that shows a tree is tree-closed.** -/
theorem treeClosed_of_look {nodeAt : String → Option Node} {t : TreeRecord}
    (hfolder : t.node.isFolder = true)
    (hcanonical : ∀ path, (nodeAt path).isSome = true → Path.IsCanonical path)
    (hlook : ∀ names, AllNames names →
      nodeAt (ofNames names) = (t.look names).map fun seen => seen.1.namedAt (ofNames names)) :
    TreeClosed nodeAt := by
  have hpath : ∀ path node, nodeAt path = some node → ∃ names, AllNames names ∧
      path = ofNames names ∧ ∃ seen, t.look names = some seen ∧ seen.1.namedAt path = node := by
    intro path node hnode
    obtain ⟨names, hn, rfl⟩ := hcanonical path (by rw [hnode]; rfl)
    rw [hlook names hn] at hnode
    exact ⟨names, hn, rfl, Option.map_eq_some_iff.mp hnode⟩
  refine ⟨⟨_, hlook [] Path.allNames_nil, hfolder⟩, ?_, ?_, ?_⟩
  · intro path node hnode
    exact hcanonical path (by rw [hnode]; rfl)
  · -- a walk to a path that is not the root goes through the children of its parent
    intro path node hnode hne
    obtain ⟨names, hn, rfl, seen, hseen, -⟩ := hpath path node hnode
    rcases List.eq_nil_or_concat names with rfl | ⟨above, name, rfl⟩
    · exact absurd rfl hne
    · rw [List.concat_eq_append] at hn hseen ⊢
      obtain ⟨ha, hname⟩ := Path.allNames_concat.mp hn
      obtain ⟨s, hw, -⟩ := Option.map_eq_some_iff.mp hseen
      rw [TreeRecord.walk_concat] at hw
      obtain ⟨folder, hfw, hchild⟩ := Option.bind_eq_some_iff.mp hw
      refine ⟨folder.node.namedAt (ofNames above), ?_, ?_⟩
      · rw [Path.parent_ofNames ha hname, hlook above ha, TreeRecord.look, hfw]
        rfl
      · rw [Node.isFolder_namedAt]
        exact TreeRecord.isFolder_of_child? hchild
  · intro path node hnode
    obtain ⟨names, hn, rfl, seen, -, rfl⟩ := hpath path node hnode
    rfl

/-- The tree of a file system that shows one. -/
theorem FileSystem.Shows.treeClosed {fs : FileSystem} {t : TreeRecord} (h : fs.Shows t) :
    TreeClosed fs.lookup :=
  treeClosed_of_look h.isFolder (fun _ hs => h.wellFormed.isCanonical hs) h.lookup_eq

namespace Base

/-- **The index of a base leads to its cells and back**, and each child that a cell lists is
the one that the index has under the name of the child. -/
structure Indexed (base : Base) : Prop where
  cell_at : ∀ (path : String) (id : Nat), base.index[path]? = some id →
    ∃ cell, base.cells[id]? = some cell
  path_of : ∀ (id : Nat) (cell : BaseCell), base.cells[id]? = some cell →
    ∃! path : String, base.index[path]? = some id
  child_at : ∀ (dir : String) (id : Nat) (cell : BaseCell), base.index[dir]? = some id →
    base.cells[id]? = some cell → ∀ kid ∈ cell.children,
      ∃ child, base.cells[kid]? = some child ∧
        base.index[Path.child dir child.node.name]? = some kid

theorem Holds.treeClosed {base : Base} {record : TreeRecord} (hb : base.Numbered)
    (hfolder : record.node.isFolder = true) (h : base.Holds [] record.prune) :
    TreeClosed base.node? := by
  refine treeClosed_of_look (by rwa [TreeRecord.node_prune])
    (fun _ hs => hb.isCanonical_of_node? hs) fun names hn => ?_
  rw [h.node?_ofNames hn, TreeRecord.look, Option.map_map]
  rfl

theorem Holds.indexed {base : Base} {record : TreeRecord} (hb : base.Numbered)
    (h : base.Holds [] record.prune) : base.Indexed := by
  refine ⟨fun path id hid => ?_, fun id cell hcell => ?_, ?_⟩
  · exact ⟨_, Array.getElem?_eq_getElem (hb.lt_count hid)⟩
  · obtain ⟨hlt, -⟩ := Array.getElem?_eq_some_iff.mp hcell
    obtain ⟨path, hpath⟩ := hb.onto hlt
    exact ⟨path, hpath, fun other hother => hb.inj hother hpath⟩
  · intro dir id cell hid hcell kid hkid
    obtain ⟨names, hn, rfl⟩ := hb.canonical hid
    have hold := h names hn
    rw [List.nil_append] at hold
    cases hw : record.prune.walk names with
    | none =>
        rw [hw] at hold
        have hnone : base.index[ofNames names]? = Option.none := hold
        rw [hnone] at hid
        cases hid
    | some s =>
        rw [hw] at hold
        obtain ⟨i, c, hi, hc, -, hkids⟩ := hold
        have hi : base.index[ofNames names]? = some i := hi
        obtain rfl : i = id := Option.some.inj (hi.symm.trans hid)
        obtain rfl : c = cell := Option.some.inj (hc.symm.trans hcell)
        -- the number listed is the one at the path of an entry of the folder
        have hmem : some kid ∈ c.children.map some := List.mem_map_of_mem hkid
        rw [hkids] at hmem
        obtain ⟨entry, hentry, hat⟩ := List.mem_map.mp hmem
        have hname := isName_of_mem_entries (TreeRecord.proper_prune record) hw hentry
        have hchild := h (names ++ [entry.node.name]) (Path.allNames_concat.mpr ⟨hn, hname⟩)
        rw [List.nil_append, TreeRecord.walk_concat, hw, Option.bind_some,
          TreeRecord.child?_of_walk_prune hw hentry] at hchild
        obtain ⟨k, kidCell, hk, hkidCell, hnode, -⟩ := hchild
        obtain rfl : k = kid := Option.some.inj (hk.symm.trans hat)
        refine ⟨kidCell, hkidCell, ?_⟩
        rw [hnode, Node.namedAt, Path.fileName_ofNames names hname, Path.child_ofNames hn]
        exact hk

end Base

namespace FileSystem

/-- Every state mirrors some plain files. -/
theorem Reachable.exists_mirrors {fs : FileSystem} (h : fs.Reachable) :
    ∃ plain, Mirrors fs plain := by
  induction h with
  | start h owner clock readings => exact ⟨_, Mirrors.start h owner clock readings⟩
  | step _ operation ih =>
      obtain ⟨plain, hm⟩ := ih
      exact ⟨_, (hm.perform operation).mirrors⟩

/-- **In every state the existing paths form a tree**, and so do those of the base, whose
cells and index agree. -/
theorem reachable_treeClosed {fs : FileSystem} (h : fs.Reachable) :
    TreeClosed fs.lookup ∧ TreeClosed fs.base.node? ∧ fs.base.Indexed := by
  obtain ⟨plain, hm⟩ := h.exists_mirrors
  obtain ⟨record, hrecord⟩ := h.exists_record
  obtain ⟨hb, hholds⟩ := Base.ofRecord_holds hrecord
  have hfolder := Base.isFolder_of_ofRecord hrecord
  exact ⟨hm.shows.treeClosed, hholds.treeClosed hb hfolder, hholds.indexed hb⟩

/-- A state after two folders were made and a file could not be made below a missing one. -/
theorem treeClosed_after_makeFolder :
    let made := (FileSystem.empty.perform (.makeFolder "a/b" true)).2
    let state := (made.perform (.touch "x/y")).2
    state.Reachable ∧ TreeClosed state.lookup ∧ TreeClosed state.base.node? ∧ state.base.Indexed := by
  intro made state
  have hempty : FileSystem.ofRecord (.folder "" []) = .ok FileSystem.empty := rfl
  have hstate : state.Reachable := ((Reachable.start hempty "guest" 0 []).step _).step _
  exact ⟨hstate, reachable_treeClosed hstate⟩

end FileSystem

end PocketShell
