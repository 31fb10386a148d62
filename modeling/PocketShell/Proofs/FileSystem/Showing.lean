import PocketShell.Proofs.FileSystem.Operations
import PocketShell.Proofs.FileSystem.Writing

set_option autoImplicit false

/-! # The tree that a file system shows

A file system *shows* a plain tree when its look-ups and its lists of children are what a walk
through the tree finds (`FileSystem.Shows`). At the start this is the pruned record. The two
ways in which operations write keep it: a refreshed node is a `stamp` in the tree, a new node
an `append`.
-/

namespace PocketShell

open PocketShell.Path (AllNames ofNames isName)

namespace FileSystem

/-- **The file system shows the tree**: at each list of names, the node and the children, with
their paths. -/
structure Shows (fs : FileSystem) (t : TreeRecord) : Prop where
  wellFormed : fs.WellFormed
  proper : t.Proper
  isFolder : t.node.isFolder = true
  lookup_eq : ∀ names, AllNames names →
    fs.lookup (ofNames names) = (t.look names).map fun seen => seen.1.namedAt (ofNames names)
  children_eq : ∀ names, AllNames names →
    fs.children (ofNames names)
      = ((t.look names).map fun seen =>
          seen.2.map fun n => (ofNames (names ++ [n.name]), n)).getD []

variable {fs : FileSystem} {t : TreeRecord}

/-- The base and the overlay alone decide what is shown. -/
theorem Shows.congr {fs' : FileSystem} (h : fs.Shows t) (hb : fs'.base = fs.base)
    (ho : fs'.overlay = fs.overlay) : fs'.Shows t := by
  obtain ⟨base, overlay, cwd, earlier, owner, clock, readings⟩ := fs
  obtain ⟨base', overlay', cwd', earlier', owner', clock', readings'⟩ := fs'
  obtain rfl : base' = base := hb
  obtain rfl : overlay' = overlay := ho
  exact ⟨⟨h.wellFormed.base, h.wellFormed.overlay⟩, h.proper, h.isFolder, h.lookup_eq,
    h.children_eq⟩

/-! ## At the start -/

/-- **A new file system shows the pruned record.** -/
theorem shows_ofRecord {record : TreeRecord} (h : ofRecord record = .ok fs) :
    fs.Shows record.prune := by
  obtain ⟨base, hbase, rfl⟩ := exists_of_ofRecord h
  have hcoherent := Base.coherent_ofRecord hbase
  have hholds := (Base.ofRecord_holds hbase).2
  have hnone : ∀ path, Overlay.none.node? path = none := by
    intro path
    simp [Overlay.node?, Overlay.none]
  have hlist : ∀ dir, Overlay.none.childrenOf dir = [] := by
    intro dir
    have hempty : Overlay.none.paths.toList = [] := by
      rw [← List.isEmpty_iff, Std.TreeMap.isEmpty_toList]
      rfl
    rw [Overlay.childrenOf_eq, hempty, List.filter_nil, List.mergeSort_nil]
  refine ⟨⟨hcoherent, Overlay.wellFormed_none⟩, TreeRecord.proper_prune record, ?_, ?_, ?_⟩
  · rw [TreeRecord.node_prune]
    exact Base.isFolder_of_ofRecord hbase
  · intro names hn
    rw [lookup_of_base (hnone _), TreeRecord.look, Option.map_map]
    exact hholds.node?_ofNames hn
  · intro names hn
    rw [children_eq]
    show (base.childrenOf _).map _ ++ (Overlay.none.childrenOf _).filterMap _ = _
    rw [hlist, List.filterMap_nil, List.append_nil, hholds.childrenOf_ofNames hn, TreeRecord.look]
    cases record.prune.walk names with
    | none => rfl
    | some s =>
        show (s.entries.map _).map _ = (s.entries.map _).map _
        refine List.map_congr_left fun n _ => ?_
        rw [suppliedEntry, Path.child_ofNames hn]
        show (_, (Overlay.none.node? _).getD n) = _
        rw [hnone, Option.getD_none]

/-! ## What is shown of a path -/

theorem Shows.isSome_walk (h : fs.Shows t) {names : List String} (hn : AllNames names) :
    (t.walk names).isSome = (fs.lookup (ofNames names)).isSome := by
  rw [h.lookup_eq names hn, Option.isSome_map, TreeRecord.isSome_look]

theorem Shows.walk_eq_none (h : fs.Shows t) {names : List String} (hn : AllNames names) :
    t.walk names = none ↔ fs.lookup (ofNames names) = none := by
  rw [← Option.isNone_iff_eq_none, ← Option.isNone_iff_eq_none, ← Option.not_isSome,
    ← Option.not_isSome, h.isSome_walk hn]

theorem Shows.hasFolder_root (h : fs.Shows t) : fs.HasFolder Path.root := by
  refine ⟨t.node.namedAt Path.root, ?_, h.isFolder⟩
  exact h.lookup_eq [] Path.allNames_nil

theorem Shows.exists_walk (h : fs.Shows t) {names : List String} (hn : AllNames names)
    (hfolder : fs.HasFolder (ofNames names)) :
    ∃ s, t.walk names = some s ∧ s.node.isFolder = true := by
  obtain ⟨folder, hfolder, hf⟩ := hfolder
  rw [h.lookup_eq names hn, TreeRecord.look, Option.map_map] at hfolder
  obtain ⟨s, hw, rfl⟩ := Option.map_eq_some_iff.mp hfolder
  exact ⟨s, hw, hf⟩

/-- The names of the children that are seen are proper. -/
theorem Shows.isName_of_look (h : fs.Shows t) {names : List String} {seen : Node × List Node}
    (hs : t.look names = some seen) {n : Node} (hn : n ∈ seen.2) : isName n.name = true := by
  obtain ⟨s, hw, rfl⟩ := Option.map_eq_some_iff.mp hs
  obtain ⟨child, hc, rfl⟩ := List.mem_map.mp hn
  exact Base.isName_of_mem_entries h.proper hw hc

/-- A list of names that can be walked is proper also when it is read off the tree. -/
theorem proper_of_isSome_look {t' : TreeRecord} (h : t.Proper)
    (hlook : ∀ q, (t'.look q).isSome = true → (t.look q).isSome = true ∨ AllNames q) :
    t'.Proper := by
  intro names hs
  rw [← TreeRecord.isSome_look] at hs
  rcases hlook names hs with hs | hn
  · rw [TreeRecord.isSome_look] at hs
    exact h names hs
  · exact hn

/-! ## Refreshing a node -/

/-- **Putting a refreshed node back** shows as a stamp in the tree. -/
theorem Shows.refresh (h : fs.Shows t) {names : List String} (hn : AllNames names) {node : Node}
    (hnode : fs.lookup (ofNames names) = some node) (now : Nat) :
    (fs.put (ofNames names) (node.stamped now)).Shows
      (TreeRecord.amend (TreeRecord.stamp now) names t) := by
  have hlook := TreeRecord.look_amend_stamp now names t
  refine ⟨h.wellFormed.put (Path.isCanonical_ofNames hn) _, ?_, ?_, ?_, ?_⟩
  · refine proper_of_isSome_look h.proper fun q hq => Or.inl ?_
    rwa [hlook, Option.isSome_map] at hq
  · have hroot := hlook []
    rw [TreeRecord.look_nil, TreeRecord.look_nil, Option.map_some] at hroot
    rw [(Prod.mk.inj (Option.some.inj hroot)).1]
    split_ifs <;> exact h.isFolder
  · -- the node at each path
    intro q hq
    rw [h.wellFormed.lookup_put_ofNames hn hq, hlook, Option.map_map]
    have hold := h.lookup_eq q hq
    by_cases hqn : q = names
    · subst hqn
      rw [hnode] at hold
      obtain ⟨seen, hs, hseen⟩ := Option.map_eq_some_iff.mp hold.symm
      rw [if_pos rfl, hs, Option.map_some, ← hseen]
      simp [Node.stamped, Node.namedAt]
    · rw [if_neg hqn, hold]
      simp [Function.comp_def, hqn]
  · -- the children of each folder
    intro q hq
    rw [h.wellFormed.children_put_of_some hnode, hlook, Option.map_map]
    have hold := h.children_eq q hq
    cases hs : t.look q with
    | none =>
        rw [hs] at hold
        rw [hold]
        rfl
    | some seen =>
        rw [hs, Option.map_some, Option.getD_some] at hold
        rw [Option.map_some, Option.getD_some]
        show _ = (seen.2.map _).map _
        rw [List.map_map, hold, List.map_map]
        refine List.map_congr_left fun n hmem => ?_
        have hname := h.isName_of_look hs hmem
        have hall := Path.allNames_concat.mpr ⟨hq, hname⟩
        show (if ofNames (q ++ [n.name]) = ofNames names then _ else _) = _
        simp only [Function.comp_apply, Path.ofNames_inj hall hn]
        split_ifs with hqn
        · -- the child at the path is the node that is looked up there
          have hmem' : (ofNames (q ++ [n.name]), n) ∈ fs.children (ofNames q) := by
            rw [hold]
            exact List.mem_map_of_mem hmem
          have hn' := h.wellFormed.lookup_of_mem_children hmem'
          rw [hqn, hnode] at hn'
          obtain rfl := Option.some.inj hn'
          show _ = (ofNames (q ++ [node.name]), _)
          rw [hqn]
        · rfl

/-! ## Making a node -/

/-- **Putting a new node into a folder** shows as one more child in the tree. -/
theorem Shows.create (h : fs.Shows t) {names : List String} (hn : AllNames names) {new : Node}
    (hname : isName new.name = true) (hnew : fs.lookup (ofNames (names ++ [new.name])) = none)
    (hfolder : fs.HasFolder (ofNames names)) :
    (fs.put (ofNames (names ++ [new.name])) new).Shows
      (TreeRecord.amend (TreeRecord.append (.mk new [])) names t) := by
  have hall := Path.allNames_concat.mpr ⟨hn, hname⟩
  have hwn := (h.walk_eq_none hall).mpr hnew
  -- in the tree, too, the names lead to a folder without a child of the new name
  obtain ⟨s, hw, hs⟩ := h.exists_walk hn hfolder
  have hfree : s.child? new.name = none := by
    rw [TreeRecord.walk_concat, hw, Option.bind_some] at hwn
    exact hwn
  have hentries : (TreeRecord.mk new []).entries = [] := by
    rw [TreeRecord.entries]
    split_ifs <;> rfl
  have hlook : ∀ q, (TreeRecord.amend (TreeRecord.append (.mk new [])) names t).look q
      = if q = names ++ [new.name] then some (new, [])
        else (t.look q).map fun seen => (seen.1, if q = names then seen.2 ++ [new] else seen.2) :=
    TreeRecord.look_amend_append hentries hw hs hfree
  have hnone : t.look (names ++ [new.name]) = none := by rw [TreeRecord.look, hwn, Option.map_none]
  refine ⟨h.wellFormed.put (Path.isCanonical_ofNames hall) _, ?_, ?_, ?_, ?_⟩
  · refine proper_of_isSome_look h.proper fun q hq => ?_
    rw [hlook] at hq
    by_cases hqn : q = names ++ [new.name]
    · exact Or.inr (hqn ▸ hall)
    · rw [if_neg hqn, Option.isSome_map] at hq
      exact Or.inl hq
  · have hroot := hlook []
    rw [if_neg (by simp), TreeRecord.look_nil, TreeRecord.look_nil, Option.map_some] at hroot
    rw [(Prod.mk.inj (Option.some.inj hroot)).1]
    exact h.isFolder
  · -- the node at each path
    intro q hq
    rw [h.wellFormed.lookup_put_ofNames hall hq, hlook]
    by_cases hqn : q = names ++ [new.name]
    · subst hqn
      rw [if_pos rfl, if_pos rfl, Option.map_some, Node.namedAt, Path.fileName_ofNames names hname]
    · rw [if_neg hqn, if_neg hqn, Option.map_map, h.lookup_eq q hq]
      rfl
  · -- the children of each folder; the new path has none
    intro q hq
    rw [h.wellFormed.children_put_of_none hnew, hlook]
    have hold := h.children_eq q hq
    have hchild := Overlay.isChild_ofNames hq hn hname
    by_cases hqn : q = names ++ [new.name]
    · subst hqn
      have hne : ¬ names ++ [new.name] = names := by simp
      rw [hold, hnone, if_neg (hchild.not.mpr hne), if_pos rfl]
      rfl
    · rw [if_neg hqn, hold]
      by_cases hqn' : q = names
      · subst hqn'
        rw [if_pos (hchild.mpr rfl), TreeRecord.look, hw]
        simp
      · rw [if_neg (hchild.not.mpr hqn'), List.append_nil]
        simp [hqn']

end FileSystem

end PocketShell
