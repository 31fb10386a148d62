import PocketShell.Proofs.FileSystem.MakeFolder

set_option autoImplicit false

/-! # The children of a folder

Two stores are merged into one list of children: those of the base, each as the overlay shows it,
and after them those that only the overlay has. In every state this list has each existing path
whose parent is the folder, and has it once (`mem_children`, `nodup_childPaths`); the two parts
stand in the order of the base and in the order in which the overlay got them (`InStoredOrder`).

That the numbers of the overlay tell the order of creation is seen from the operations: whatever
is performed, the children that a folder has stay where they are, and new ones come after them
(`childPaths_run`).
-/

namespace PocketShell

open PocketShell.Path (AllNames ofNames isName)

/-- The names of the children of a base folder are distinct. -/
theorem Base.Holds.nodup_childrenOf {base : Base} {record : TreeRecord}
    (h : base.Holds [] record.prune) {names : List String} (hn : AllNames names) :
    ((base.childrenOf (ofNames names)).map Node.name).Nodup := by
  rw [h.childrenOf_ofNames hn]
  cases hw : record.prune.walk names with
  | none => exact List.nodup_nil
  | some s =>
      rw [Option.map_some, Option.getD_some, List.map_map]
      exact TreeRecord.nodup_entries_of_walk_prune hw

/-- The children that an overlay has of a folder stand in the order of their numbers, and no two
have one number. -/
theorem Overlay.WellFormed.pairwise_lt_childrenOf {overlay : Overlay} (h : overlay.WellFormed)
    (dir : String) : (overlay.childrenOf dir).Pairwise fun a b => a.2 < b.2 := by
  have hnodup : (overlay.childrenOf dir).Nodup := by
    rw [childrenOf_eq, (List.mergeSort_perm _ _).nodup_iff]
    refine List.Nodup.filter _ (Std.TreeMap.distinct_keys_toList.imp ?_)
    rintro a _ hne rfl
    exact hne Std.ReflCmp.compare_self
  refine (hnodup.and (pairwise_childrenOf overlay dir)).imp_of_mem ?_
  rintro ⟨p, i⟩ ⟨q, j⟩ hp hq ⟨hne, hle⟩
  rw [decide_eq_true_eq] at hle
  refine Nat.lt_of_le_of_ne hle ?_
  rintro rfl
  exact hne (Prod.ext (h.inj (mem_childrenOf.mp hp).1 (mem_childrenOf.mp hq).1) rfl)

namespace FileSystem

variable {fs : FileSystem}

/-! ## Stored order -/

/-- The paths of the children of a folder, in stored order. -/
def childPaths (fs : FileSystem) (dir : String) : List String := (fs.children dir).map Prod.fst

/-- The overlay got the one path before the other. -/
def MadeBefore (fs : FileSystem) (a b : String) : Prop :=
  ∃ i j, fs.overlay.paths[a]? = some i ∧ fs.overlay.paths[b]? = some j ∧ i < j

/-- **The stored order of the children of a folder**: first those of the base, as the base lists
them, and then paths that only the overlay has, in the order in which it got them. -/
def InStoredOrder (fs : FileSystem) (dir : String) (paths : List String) : Prop :=
  ∃ made, paths = (fs.base.childrenOf dir).map (fun node => Path.child dir node.name) ++ made ∧
    (∀ path ∈ made, fs.base.node? path = none) ∧ made.Pairwise fs.MadeBefore

/-- What is listed of the overlay is a path that the base does not have. -/
theorem WellFormed.fst_of_madeEntry (h : fs.WellFormed) {entry : String × Nat}
    {shown : String × Node} (hshown : fs.madeEntry entry = some shown) :
    shown.1 = entry.1 ∧ fs.base.node? shown.1 = none := by
  rw [madeEntry] at hshown
  split_ifs at hshown with hbase
  obtain ⟨node, -, rfl⟩ := Option.map_eq_some_iff.mp hshown
  refine ⟨rfl, ?_⟩
  rwa [← Option.not_isSome_iff_eq_none, h.base.numbered.isSome_node?,
    ← Std.TreeMap.contains_eq_isSome_getElem?]

/-- **The children of a folder are in stored order.** -/
theorem WellFormed.inStoredOrder (h : fs.WellFormed) (dir : String) :
    fs.InStoredOrder dir (fs.childPaths dir) := by
  refine ⟨((fs.overlay.childrenOf dir).filterMap fs.madeEntry).map Prod.fst, ?_, ?_, ?_⟩
  · rw [childPaths, children_eq, List.map_append, List.map_map]
    rfl
  · intro path hpath
    obtain ⟨shown, hshown, rfl⟩ := List.mem_map.mp hpath
    obtain ⟨entry, -, hentry⟩ := List.mem_filterMap.mp hshown
    exact (h.fst_of_madeEntry hentry).2
  · rw [List.pairwise_map, List.pairwise_filterMap]
    refine (h.overlay.pairwise_lt_childrenOf dir).imp_of_mem ?_
    intro a b ha hb hlt shown hshown other hother
    rw [(h.fst_of_madeEntry hshown).1, (h.fst_of_madeEntry hother).1]
    exact ⟨a.2, b.2, (Overlay.mem_childrenOf.mp ha).1, (Overlay.mem_childrenOf.mp hb).1, hlt⟩

theorem child_injective (dir : String) : Function.Injective (Path.child dir) :=
  fun _ _ h => (String.append_right_inj (Path.below dir)).mp h

/-- In stored order no path comes twice, as long as the base lists no name twice. -/
theorem InStoredOrder.nodup {dir : String} {paths : List String} (h : fs.InStoredOrder dir paths)
    (hbase : fs.base.Coherent) (hnames : ((fs.base.childrenOf dir).map Node.name).Nodup) :
    paths.Nodup := by
  obtain ⟨made, rfl, hnew, horder⟩ := h
  refine List.nodup_append.mpr ⟨?_, ?_, ?_⟩
  · have hmap := hnames.map (child_injective dir)
    rwa [List.map_map] at hmap
  · refine horder.imp ?_
    rintro a _ ⟨i, j, hi, hj, hlt⟩ rfl
    obtain rfl := Option.some.inj (hi.symm.trans hj)
    exact lt_irrefl _ hlt
  · -- the base has the paths of the first part, and none of the second
    rintro path hpath _ hmade rfl
    obtain ⟨node, hnode, rfl⟩ := List.mem_map.mp hpath
    have hnone := hnew _ hmade
    rw [hbase.node?_child hnode] at hnone
    cases hnone

/-! ## Each child once -/

/-- **The children of a folder are the existing paths with one more name.** -/
theorem Shows.mem_children {t : TreeRecord} (h : fs.Shows t) {names : List String}
    (hn : AllNames names) {path : String} {node : Node} :
    (path, node) ∈ fs.children (ofNames names)
      ↔ ∃ name, isName name = true ∧ path = ofNames (names ++ [name]) ∧
          fs.lookup path = some node := by
  constructor
  · intro hmem
    have hlookup := h.wellFormed.lookup_of_mem_children hmem
    rw [h.children_eq names hn] at hmem
    cases hlook : t.look names with
    | none =>
        rw [hlook] at hmem
        cases hmem
    | some seen =>
        rw [hlook, Option.map_some, Option.getD_some] at hmem
        obtain ⟨n, hseen, heq⟩ := List.mem_map.mp hmem
        obtain ⟨rfl, rfl⟩ := Prod.mk.inj heq
        exact ⟨n.name, h.isName_of_look hlook hseen, rfl, hlookup⟩
  · rintro ⟨name, hname, rfl, hlookup⟩
    -- the walk to the path goes through an entry of the folder
    have hsome := h.isSome_walk (Path.allNames_concat.mpr ⟨hn, hname⟩)
    rw [hlookup, Option.isSome_some, TreeRecord.walk_concat, Option.isSome_iff_exists] at hsome
    obtain ⟨child, hchild⟩ := hsome
    obtain ⟨s, hw, hc⟩ := Option.bind_eq_some_iff.mp hchild
    obtain ⟨hentry, hcn⟩ := TreeRecord.mem_entries_of_child? hc
    have hmem : (ofNames (names ++ [name]), child.node) ∈ fs.children (ofNames names) := by
      rw [h.children_eq names hn, TreeRecord.look, hw, ← hcn]
      exact List.mem_map.mpr ⟨child.node, List.mem_map_of_mem hentry, rfl⟩
    have hnode := h.wellFormed.lookup_of_mem_children hmem
    rw [hlookup] at hnode
    rwa [Option.some.inj hnode]

/-- **The lists of children agree with the look-ups**: the existing paths form a tree, and each of
them is listed once, under its parent. -/
structure Listed (fs : FileSystem) : Prop where
  wellFormed : fs.WellFormed
  treeClosed : TreeClosed fs.lookup
  mem_children : ∀ {names : List String}, AllNames names → ∀ {path : String} {node : Node},
    (path, node) ∈ fs.children (ofNames names)
      ↔ ∃ name, isName name = true ∧ path = ofNames (names ++ [name]) ∧ fs.lookup path = some node
  nodup_childPaths : ∀ {names : List String}, AllNames names →
    (fs.childPaths (ofNames names)).Nodup

/-- In every state the lists of children agree with the look-ups. -/
theorem Reachable.listed (h : fs.Reachable) : fs.Listed := by
  obtain ⟨plain, hmirrors⟩ := h.exists_mirrors
  have hshows := hmirrors.shows
  obtain ⟨record, hrecord⟩ := h.exists_record
  have hholds := (Base.ofRecord_holds hrecord).2
  exact ⟨hshows.wellFormed, hshows.treeClosed, hshows.mem_children, fun hn =>
    (hshows.wellFormed.inStoredOrder _).nodup hshows.wellFormed.base (hholds.nodup_childrenOf hn)⟩

/-! ## New children come last -/

theorem WellFormed.childPaths_put (h : fs.WellFormed) (path : String) (node : Node)
    (dir : String) : fs.childPaths dir <+: (fs.put path node).childPaths dir := by
  rw [childPaths, childPaths]
  cases hold : fs.lookup path with
  | some old =>
      -- the node changes, not the path at which it is listed
      have hsame : ∀ entry ∈ fs.children dir,
          (Prod.fst ∘ fun entry => if entry.1 = path then (path, node) else entry) entry
            = entry.1 := by
        intro entry _
        rw [Function.comp_apply]
        split_ifs with heq
        · exact heq.symm
        · rfl
      rw [h.children_put_of_some hold, List.map_map, List.map_congr_left hsame]
  | none =>
      rw [h.children_put_of_none hold, List.map_append]
      exact List.prefix_append _ _

theorem childPaths_tick (fs : FileSystem) (dir : String) :
    fs.tick.childPaths dir = fs.childPaths dir := by
  rw [childPaths, children_tick, childPaths]

theorem childPaths_changeDirectory (fs : FileSystem) (input dir : String) :
    (fs.changeDirectory input).2.childPaths dir = fs.childPaths dir := by
  simp only [changeDirectory]
  split
  · split <;> rfl
  · split <;> rfl

theorem WellFormed.childPaths_makeFolder (h : fs.WellFormed) (htree : TreeClosed fs.lookup)
    (input : String) (parents : Bool) (dir : String) :
    fs.childPaths dir <+: (fs.makeFolder input parents).2.childPaths dir := by
  rcases h.makeFolder_cases htree input parents with ⟨e, heq⟩ | ⟨heq, -, -⟩
  · rw [heq]
  · have hadded := h.foldersAdded_missing (Path.isCanonical_resolve fs.cwd input)
    rw [heq, childPaths, childPaths]
    show _ <+: ((fs.addFolders (fs.missing (Path.resolve fs.cwd input))).children dir).map _
    rw [hadded.children_eq, List.map_append]
    exact List.prefix_append _ _

theorem WellFormed.childPaths_touch (h : fs.WellFormed) (input dir : String) :
    fs.childPaths dir <+: (fs.touch input).2.childPaths dir := by
  have hput : ∀ node : Node,
      fs.childPaths dir <+: (fs.tick.put (fs.resolve input) node).childPaths dir := by
    intro node
    rw [← fs.childPaths_tick]
    exact h.tick.childPaths_put _ node dir
  simp only [touch]
  split
  · exact hput _
  · split
    · rw [childPaths_tick]
    · exact hput _

/-- **New children come last**: whatever is performed, the children that a folder has stay where
they are in its list. -/
theorem Reachable.childPaths_perform (h : fs.Reachable) (operation : FileOperation)
    (dir : String) : fs.childPaths dir <+: (fs.perform operation).2.childPaths dir := by
  have hlisted := h.listed
  cases operation with
  | changeDirectory input =>
      show _ <+: (fs.changeDirectory input).2.childPaths dir
      rw [childPaths_changeDirectory]
  | makeFolder input parents =>
      exact hlisted.wellFormed.childPaths_makeFolder hlisted.treeClosed input parents dir
  | touch input => exact hlisted.wellFormed.childPaths_touch input dir

/-- **The list of children grows at its end only**, over any run of operations. -/
theorem Reachable.childPaths_run (h : fs.Reachable) (operations : List FileOperation)
    (dir : String) : fs.childPaths dir <+: (fs.run operations).2.childPaths dir := by
  induction operations generalizing fs with
  | nil => exact List.prefix_rfl
  | cons operation rest ih =>
      exact (h.childPaths_perform operation dir).trans (ih (h.step operation))

end FileSystem

end PocketShell
