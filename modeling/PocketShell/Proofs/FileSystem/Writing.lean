import PocketShell.Proofs.FileSystem.Layout
import PocketShell.Proofs.FileSystem.Overlay

set_option autoImplicit false

/-! # What a write changes

All operations change a file system by putting a node at a path. Seen from outside, a put at
a path that exists replaces one node, wherever that node shows up (`children_put_of_some`),
and a put at a new path adds one entry at the end of the children of its parent
(`children_put_of_none`). It does not matter for this which of the two stores has the node.
-/

namespace PocketShell

open PocketShell.Path (AllNames ofNames isName)

/-! ## Coherent bases -/

/-- **The invariant of the base**: its paths are numbered by its cells, and each child that a
folder lists is the node at the path of that child. -/
structure Base.Coherent (base : Base) : Prop where
  numbered : base.Numbered
  node?_child : ∀ {dir : String} {node : Node}, node ∈ base.childrenOf dir →
    base.node? (Path.child dir node.name) = some node

theorem Base.Numbered.isSome_node? {base : Base} (h : base.Numbered) (path : String) :
    (base.node? path).isSome = (base.index[path]?).isSome := by
  rw [Base.node?, Base.cell?]
  cases hid : base.index[path]? with
  | none => rfl
  | some id => simp [h.lt_count hid]

theorem Base.Numbered.isCanonical_of_node? {base : Base} (h : base.Numbered) {path : String}
    (hs : (base.node? path).isSome = true) : Path.IsCanonical path := by
  rw [h.isSome_node?, Option.isSome_iff_exists] at hs
  obtain ⟨id, hid⟩ := hs
  exact h.canonical hid

/-- **The base of a record is coherent.** -/
theorem Base.coherent_ofRecord {record : TreeRecord} {base : Base}
    (h : Base.ofRecord record = .ok base) : base.Coherent := by
  obtain ⟨hb, hholds⟩ := Base.ofRecord_holds h
  refine ⟨hb, fun {dir node} hmem => ?_⟩
  have hdir : Path.IsCanonical dir := by
    refine hb.isCanonical_of_node? ?_
    rw [Base.childrenOf] at hmem
    rw [Base.node?, Option.isSome_map]
    cases hcell : base.cell? dir with
    | none =>
        rw [hcell] at hmem
        exact absurd hmem List.not_mem_nil
    | some cell => rfl
  obtain ⟨names, hn, rfl⟩ := hdir
  rw [hholds.childrenOf_ofNames hn] at hmem
  cases hw : record.prune.walk names with
  | none =>
      rw [hw] at hmem
      exact absurd hmem List.not_mem_nil
  | some s =>
      rw [hw] at hmem
      obtain ⟨child, hc, rfl⟩ := List.mem_map.mp hmem
      have hname := Base.isName_of_mem_entries (TreeRecord.proper_prune record) hw hc
      rw [Path.child_ofNames hn, hholds.node?_ofNames (Path.allNames_concat.mpr ⟨hn, hname⟩),
        TreeRecord.walk_concat, hw, Option.bind_some, TreeRecord.child?_of_walk_prune hw hc,
        Option.map_some, Node.namedAt, Path.fileName_ofNames names hname]

namespace FileSystem

/-! ## The node at each path -/

/-- **The invariant of a file system**: a coherent base under a well-formed overlay. -/
structure WellFormed (fs : FileSystem) : Prop where
  base : fs.base.Coherent
  overlay : fs.overlay.WellFormed

variable {fs : FileSystem}

theorem lookup_of_overlay {path : String} {node : Node}
    (h : fs.overlay.node? path = some node) : fs.lookup path = some node := by
  rw [lookup, h]

theorem lookup_of_base {path : String} (h : fs.overlay.node? path = none) :
    fs.lookup path = fs.base.node? path := by
  rw [lookup, h]

theorem lookup_eq_none {path : String} :
    fs.lookup path = none ↔ fs.overlay.node? path = none ∧ fs.base.node? path = none := by
  cases h : fs.overlay.node? path with
  | none => simp [lookup_of_base h]
  | some node => simp [lookup_of_overlay h]

/-- Only canonical paths exist. -/
theorem WellFormed.isCanonical (h : fs.WellFormed) {path : String}
    (hs : (fs.lookup path).isSome = true) : Path.IsCanonical path := by
  cases ho : fs.overlay.node? path with
  | none =>
      rw [lookup_of_base ho] at hs
      exact h.base.numbered.isCanonical_of_node? hs
  | some node =>
      have hp := h.overlay.isSome_node? path
      rw [ho, eq_comm, Option.isSome_some, Option.isSome_iff_exists] at hp
      obtain ⟨id, hid⟩ := hp
      exact h.overlay.canonical hid

theorem WellFormed.put (h : fs.WellFormed) {path : String} (hp : Path.IsCanonical path)
    (node : Node) : (fs.put path node).WellFormed := ⟨h.base, h.overlay.insert hp node⟩

/-- **After a put the path has the new node**, and every other path what it had. -/
theorem WellFormed.lookup_put (h : fs.WellFormed) (path : String) (node : Node) (q : String) :
    (fs.put path node).lookup q = if q = path then some node else fs.lookup q := by
  have ho : (fs.put path node).overlay.node? q
      = if q = path then some node else fs.overlay.node? q :=
    Overlay.WellFormed.node?_insert h.overlay path node q
  rw [lookup, lookup, ho]
  split_ifs
  · rfl
  · rfl

/-! ## The children of a folder -/

/-- How a child that the base lists is shown. -/
def suppliedEntry (fs : FileSystem) (dir : String) (node : Node) : String × Node :=
  (Path.child dir node.name, (fs.overlay.node? (Path.child dir node.name)).getD node)

/-- How a child that the overlay has is shown, unless the base has it too. -/
def madeEntry (fs : FileSystem) (entry : String × Nat) : Option (String × Node) :=
  if fs.base.index.contains entry.1 then none
  else (fs.overlay.node? entry.1).map fun node => (entry.1, node)

theorem children_eq (fs : FileSystem) (dir : String) :
    fs.children dir
      = (fs.base.childrenOf dir).map (fs.suppliedEntry dir)
        ++ (fs.overlay.childrenOf dir).filterMap fs.madeEntry := by
  rw [children]
  refine congrArg (_ ++ ·) (List.filterMap_congr ?_)
  rintro ⟨path, id⟩ hmem
  have hid := (Overlay.mem_childrenOf.mp hmem).1
  show (if fs.base.index.contains path then none else fs.overlay.nodes[id]?.map fun n => (path, n))
    = fs.madeEntry (path, id)
  rw [madeEntry, Overlay.node?, hid]
  rfl

theorem WellFormed.suppliedEntry_put (h : fs.WellFormed) (path : String) (node : Node)
    (dir : String) (n : Node) :
    (fs.put path node).suppliedEntry dir n
      = if Path.child dir n.name = path then (path, node) else fs.suppliedEntry dir n := by
  have ho : (fs.put path node).overlay.node? (Path.child dir n.name)
      = if Path.child dir n.name = path then some node
        else fs.overlay.node? (Path.child dir n.name) :=
    Overlay.WellFormed.node?_insert h.overlay path node _
  rw [suppliedEntry, suppliedEntry, ho]
  split_ifs with heq
  · rw [heq]
    rfl
  · rfl

theorem WellFormed.madeEntry_put (h : fs.WellFormed) (path : String) (node : Node)
    (entry : String × Nat) :
    (fs.put path node).madeEntry entry
      = if fs.base.index.contains entry.1 then none
        else if entry.1 = path then some (path, node) else fs.madeEntry entry := by
  have ho : (fs.put path node).overlay.node? entry.1
      = if entry.1 = path then some node else fs.overlay.node? entry.1 :=
    Overlay.WellFormed.node?_insert h.overlay path node _
  rw [madeEntry, madeEntry, ho]
  show (if fs.base.index.contains entry.1 then none else _) = _
  split_ifs with hbase heq
  · rfl
  · rw [Option.map_some, heq]
  · rfl

/-- **The children of a folder are the nodes at their paths.** -/
theorem WellFormed.lookup_of_mem_children (h : fs.WellFormed) {dir path : String} {node : Node}
    (hmem : (path, node) ∈ fs.children dir) : fs.lookup path = some node := by
  rw [children_eq, List.mem_append] at hmem
  rcases hmem with hmem | hmem
  · obtain ⟨n, hn, heq⟩ := List.mem_map.mp hmem
    obtain ⟨rfl, rfl⟩ := Prod.mk.inj heq
    cases ho : fs.overlay.node? (Path.child dir n.name) with
    | none => rw [lookup_of_base ho, h.base.node?_child hn, Option.getD_none]
    | some m => rw [lookup_of_overlay ho, Option.getD_some]
  · obtain ⟨entry, -, heq⟩ := List.mem_filterMap.mp hmem
    rw [madeEntry] at heq
    split_ifs at heq
    obtain ⟨m, hm, heq⟩ := Option.map_eq_some_iff.mp heq
    obtain ⟨rfl, rfl⟩ := Prod.mk.inj heq
    exact lookup_of_overlay hm

/-- **A put at a path that exists** replaces the node among the children of its parent. -/
theorem WellFormed.children_put_of_some (h : fs.WellFormed) {path : String} {old : Node}
    (hold : fs.lookup path = some old) (node : Node) (dir : String) :
    (fs.put path node).children dir
      = (fs.children dir).map fun entry => if entry.1 = path then (path, node) else entry := by
  rw [children_eq, children_eq, List.map_append, List.map_map, List.map_filterMap]
  refine congrArg₂ (· ++ ·) (List.map_congr_left fun n _ => h.suppliedEntry_put path node dir n) ?_
  -- an entry that the overlay lists is shown as before, or as the new node
  have hentry : ∀ entry ∈ fs.overlay.childrenOf dir, (fs.put path node).madeEntry entry
      = (fs.madeEntry entry).map fun e => if e.1 = path then (path, node) else e := by
    rintro ⟨q, id⟩ hmem
    have hid := (Overlay.mem_childrenOf.mp hmem).1
    have hlt := h.overlay.lt_count hid
    rw [h.madeEntry_put, madeEntry, Overlay.node?, hid]
    simp only [Option.bind_some, Array.getElem?_eq_getElem hlt, Option.map_some]
    split_ifs
    · rfl
    · rename_i heq
      rw [Option.map_some, if_pos heq]
    · rename_i heq
      rw [Option.map_some, if_neg heq]
  show ((fs.overlay.insert path node).childrenOf dir).filterMap (fs.put path node).madeEntry = _
  cases hid : fs.overlay.paths[path]? with
  | some id =>
      rw [Overlay.childrenOf_insert_of_some hid]
      exact List.filterMap_congr hentry
  | none =>
      -- the overlay gets a new path, but the base lists the node already
      have ho : fs.overlay.node? path = none := by rw [Overlay.node?, hid, Option.bind_none]
      have hbase : fs.base.index.contains path = true := by
        rw [Std.TreeMap.contains_eq_isSome_getElem?, ← h.base.numbered.isSome_node?,
          ← lookup_of_base ho, hold]
        rfl
      have hnew : (if Overlay.isChild dir path then [(path, fs.overlay.nodes.size)] else []).filterMap
          (fs.put path node).madeEntry = [] := by
        split_ifs
        · rw [List.filterMap_cons_none (by rw [h.madeEntry_put, if_pos hbase]), List.filterMap_nil]
        · rfl
      rw [Overlay.WellFormed.childrenOf_insert_of_none h.overlay hid, List.filterMap_append, hnew,
        List.append_nil]
      exact List.filterMap_congr hentry

/-- **A put at a new path** adds the node at the end of the children of its parent. -/
theorem WellFormed.children_put_of_none (h : fs.WellFormed) {path : String}
    (hnew : fs.lookup path = none) (node : Node) (dir : String) :
    (fs.put path node).children dir
      = fs.children dir ++ if Overlay.isChild dir path then [(path, node)] else [] := by
  obtain ⟨ho, hb⟩ := lookup_eq_none.mp hnew
  have hid : fs.overlay.paths[path]? = none := by
    rw [← Option.isNone_iff_eq_none, ← Option.not_isSome, ← h.overlay.isSome_node?, ho]
    rfl
  have hbase : fs.base.index.contains path = false := by
    rw [Std.TreeMap.contains_eq_isSome_getElem?, ← h.base.numbered.isSome_node?, hb]
    rfl
  -- the base lists no child at a path where it has no node
  have hsupplied : (fs.base.childrenOf dir).map ((fs.put path node).suppliedEntry dir)
      = (fs.base.childrenOf dir).map (fs.suppliedEntry dir) := by
    refine List.map_congr_left fun n hn => ?_
    rw [h.suppliedEntry_put, if_neg]
    rintro rfl
    rw [h.base.node?_child hn] at hb
    cases hb
  -- no path of the overlay is the new one
  have hmade : (fs.overlay.childrenOf dir).filterMap (fs.put path node).madeEntry
      = (fs.overlay.childrenOf dir).filterMap fs.madeEntry := by
    refine List.filterMap_congr ?_
    rintro ⟨q, id⟩ hmem
    have hqid := (Overlay.mem_childrenOf.mp hmem).1
    have hne : q ≠ path := by
      rintro rfl
      rw [hid] at hqid
      cases hqid
    rw [h.madeEntry_put, if_neg hne, madeEntry]
    split_ifs <;> rfl
  have hlast : (if Overlay.isChild dir path then [(path, fs.overlay.nodes.size)] else []).filterMap
      (fs.put path node).madeEntry = if Overlay.isChild dir path then [(path, node)] else [] := by
    split_ifs
    · have hmade : (fs.put path node).madeEntry (path, fs.overlay.nodes.size)
          = some (path, node) := by
        rw [h.madeEntry_put, hbase]
        simp
      rw [List.filterMap_cons_some hmade, List.filterMap_nil]
    · rfl
  rw [children_eq, children_eq, List.append_assoc]
  show (fs.base.childrenOf dir).map _
    ++ ((fs.overlay.insert path node).childrenOf dir).filterMap _ = _
  rw [hsupplied, Overlay.WellFormed.childrenOf_insert_of_none h.overlay hid,
    List.filterMap_append, hmade, hlast]

/-! ## Making folders along a path -/

/-- There is a folder at the path. -/
def HasFolder (fs : FileSystem) (path : String) : Prop :=
  ∃ node, fs.lookup path = some node ∧ node.isFolder = true

theorem hasFolder_of_requireFolder {path : String} {node : Node}
    (h : fs.requireFolder path = .ok node) : fs.HasFolder path := by
  rw [requireFolder] at h
  cases hl : fs.lookup path with
  | none =>
      rw [hl] at h
      cases h
  | some found =>
      rw [hl] at h
      dsimp only at h
      split_ifs at h with hf
      exact ⟨found, hl, hf⟩

theorem requireFolder_of_hasFolder {path : String} (h : fs.HasFolder path) :
    ∃ node, fs.requireFolder path = .ok node := by
  obtain ⟨node, hnode, hfolder⟩ := h
  exact ⟨node, by simp only [requireFolder, hnode, if_pos hfolder]⟩

@[simp] theorem lookup_tick (fs : FileSystem) (path : String) :
    fs.tick.lookup path = fs.lookup path := by
  rw [tick]
  cases fs.readings <;> rfl

theorem WellFormed.tick (h : fs.WellFormed) : fs.tick.WellFormed := by
  rw [FileSystem.tick]
  cases fs.readings with
  | nil => exact h
  | cons time later => exact ⟨h.base, h.overlay⟩

theorem WellFormed.lookup_put_ofNames (h : fs.WellFormed) {names q : List String}
    (hn : AllNames names) (hq : AllNames q) (node : Node) :
    (fs.put (ofNames names) node).lookup (ofNames q)
      = if q = names then some node else fs.lookup (ofNames q) := by
  rw [h.lookup_put]
  simp only [Path.ofNames_inj hq hn]

theorem WellFormed.hasFolder_put (h : fs.WellFormed) (path : String) {node : Node}
    (hf : node.isFolder = true) : (fs.put path node).tick.HasFolder path :=
  ⟨node, by rw [lookup_tick, h.lookup_put, if_pos rfl], hf⟩

/-- Making folders changes nothing at a path that is not on the way. -/
theorem WellFormed.lookup_makeFolders (h : fs.WellFormed) {dir rest q : List String}
    (hd : AllNames dir) (hr : AllNames rest) (hq : AllNames q) (hne : ¬ q <+: dir ++ rest) :
    (fs.makeFolders (ofNames dir) rest).2.lookup (ofNames q) = fs.lookup (ofNames q) := by
  induction rest generalizing fs dir with
  | nil => rfl
  | cons name rest ih =>
      obtain ⟨hname, hr⟩ := Path.allNames_cons.mp hr
      have hall := Path.allNames_concat.mpr ⟨hd, hname⟩
      have hne' : ¬ q <+: dir ++ [name] ++ rest := by
        rwa [List.append_assoc, List.singleton_append]
      simp only [makeFolders, Path.child_ofNames hd]
      cases fs.lookup (ofNames (dir ++ [name])) with
      | some node =>
          by_cases hf : node.isFolder = true
          · simp only [if_pos hf]
            exact ih h hall hr hne'
          · simp only [if_neg hf]
      | none =>
          -- the folder that is made lies on the way, `q` does not
          have hqn : q ≠ dir ++ [name] := by
            rintro rfl
            exact hne' (List.prefix_append _ rest)
          rw [ih (h.put (Path.isCanonical_ofNames hall) _).tick hall hr hne', lookup_tick,
            h.lookup_put_ofNames hall hq, if_neg hqn]

/-- The folders made above a free path leave it free. -/
theorem WellFormed.lookup_makeFolders_above (h : fs.WellFormed) {path : String}
    (hp : Path.IsCanonical path) (hnew : fs.lookup path = none) :
    (fs.makeFolders Path.root (segmentsOf (Path.parent path))).2.lookup path = none := by
  rcases hp.eq_root_or_child with rfl | ⟨_, name, ⟨names, hn, rfl⟩, hname, rfl⟩
  · exact hnew
  · rw [Path.child_ofNames hn] at hnew ⊢
    rw [Path.parent_ofNames hn hname, Path.segmentsOf_ofNames hn]
    have hall := Path.allNames_concat.mpr ⟨hn, hname⟩
    have hne : ¬ names ++ [name] <+: [] ++ names := by
      intro hpre
      have hlen := hpre.length_le
      simp only [List.length_append, List.length_singleton, List.length_nil] at hlen
      omega
    exact (h.lookup_makeFolders Path.allNames_nil hn hall hne).trans hnew

/-- **When making folders succeeds, the last of them is there.** -/
theorem WellFormed.hasFolder_makeFolders (h : fs.WellFormed) {dir rest : List String}
    (hd : AllNames dir) (hr : AllNames rest) (hfolder : fs.HasFolder (ofNames dir))
    (hok : (fs.makeFolders (ofNames dir) rest).1 = .ok ()) :
    (fs.makeFolders (ofNames dir) rest).2.HasFolder (ofNames (dir ++ rest)) := by
  induction rest generalizing fs dir with
  | nil => rwa [List.append_nil]
  | cons name rest ih =>
      obtain ⟨hname, hr⟩ := Path.allNames_cons.mp hr
      have hall := Path.allNames_concat.mpr ⟨hd, hname⟩
      have happ : dir ++ name :: rest = dir ++ [name] ++ rest := by simp
      rw [happ]
      simp only [makeFolders, Path.child_ofNames hd] at hok ⊢
      cases hl : fs.lookup (ofNames (dir ++ [name])) with
      | some node =>
          rw [hl] at hok
          by_cases hf : node.isFolder = true
          · simp only [if_pos hf] at hok ⊢
            exact ih h hall hr ⟨node, hl, hf⟩ hok
          · simp only [if_neg hf] at hok
            cases hok
      | none =>
          rw [hl] at hok
          exact ih (h.put (Path.isCanonical_ofNames hall) _).tick hall hr
            (h.hasFolder_put _ rfl) hok

/-! ## Touching -/

/-- What touching answers: the target may exist, or its parent must be a folder. -/
theorem touch_eq (fs : FileSystem) (input : String) :
    fs.touch input
      = match fs.lookup (fs.resolve input), fs.requireFolder (Path.parent (fs.resolve input)) with
        | some node, _ =>
            (.ok .updated, fs.tick.put (fs.resolve input) { node with modified := some fs.clock })
        | none, .error e => (.error e, fs.tick)
        | none, .ok _ => (.ok .created,
            fs.tick.put (fs.resolve input) (.newFile (Path.fileName (fs.resolve input)) fs.clock)) := by
  have hrequire : fs.tick.requireFolder (Path.parent (fs.resolve input))
      = fs.requireFolder (Path.parent (fs.resolve input)) := by
    rw [requireFolder, lookup_tick, requireFolder]
  simp only [touch, lookup_tick, hrequire]
  cases fs.lookup (fs.resolve input) with
  | some node => rfl
  | none => cases fs.requireFolder (Path.parent (fs.resolve input)) <;> rfl

/-- Touching leaves every other path as it is. -/
theorem WellFormed.lookup_touch (h : fs.WellFormed) (input : String) {path : String}
    (hne : path ≠ fs.resolve input) : (fs.touch input).2.lookup path = fs.lookup path := by
  rw [touch_eq]
  split
  · rw [h.tick.lookup_put, if_neg hne, lookup_tick]
  · exact fs.lookup_tick path
  · rw [h.tick.lookup_put, if_neg hne, lookup_tick]

end FileSystem

end PocketShell
