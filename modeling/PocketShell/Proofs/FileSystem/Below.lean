import PocketShell.FileSystem.Traversal
import PocketShell.Proofs.FileSystem.Children

set_option autoImplicit false

/-! # What is below a node

A search walks from folder to folder by their paths, with a bound on the depth that the number of
nodes gives. The bound never shows: the paths on the way to a node exist, differ, and are numbered
by the two stores, so no node is deeper than there are nodes (`Listed.within_nodeCount`).

Within such a bound the walk below a node finds just the existing paths below it (`mem_pathsBelow`),
none of them twice (`nodup_pathsBelow`). Those below any path found follow it in one stretch, as
they would be found from there (`pathsBelow_split`), and those whose parent the node is are its
children, as it lists them (`filter_pathsBelow`).
-/

namespace PocketShell

open PocketShell.Path (AllNames ofNames isName IsBelow)

namespace FileSystem

variable {fs : FileSystem}

/-! ## How deep a tree can be -/

/-- The number of an existing path; those of the overlay come after those of the base. -/
def numberOf (fs : FileSystem) (path : String) : Nat :=
  match fs.overlay.paths[path]? with
  | some id => fs.base.cells.size + id
  | none => (fs.base.index[path]?).getD 0

/-- The number of an existing path is the one that a store gives it. -/
theorem WellFormed.numberOf_cases (h : fs.WellFormed) {path : String}
    (hs : (fs.lookup path).isSome = true) :
    (∃ id, fs.overlay.paths[path]? = some id ∧ id < fs.overlay.nodes.size ∧
        fs.numberOf path = fs.base.cells.size + id) ∨
      (∃ id, fs.base.index[path]? = some id ∧ id < fs.base.cells.size ∧
        fs.numberOf path = id) := by
  unfold numberOf
  cases hid : fs.overlay.paths[path]? with
  | some id => exact .inl ⟨id, rfl, h.overlay.lt_count hid, rfl⟩
  | none =>
      have ho : fs.overlay.node? path = none := by rw [Overlay.node?, hid, Option.bind_none]
      rw [lookup_of_base ho, h.base.numbered.isSome_node?, Option.isSome_iff_exists] at hs
      obtain ⟨id, hid⟩ := hs
      exact .inr ⟨id, hid, h.base.numbered.lt_count hid, by rw [hid]; rfl⟩

/-- **Different paths that exist are no more than the nodes.** -/
theorem WellFormed.length_le_nodeCount (h : fs.WellFormed) {paths : List String}
    (hnodup : paths.Nodup) (hexist : ∀ path ∈ paths, (fs.lookup path).isSome = true) :
    paths.length ≤ fs.nodeCount := by
  have hinj : ∀ a ∈ paths, ∀ b ∈ paths, fs.numberOf a = fs.numberOf b → a = b := by
    intro a ha b hb heq
    -- one store gives a number once, and the numbers of the two stores do not meet
    rcases h.numberOf_cases (hexist a ha) with ⟨i, hi, -, hai⟩ | ⟨i, hi, hilt, hai⟩ <;>
      rcases h.numberOf_cases (hexist b hb) with ⟨j, hj, -, hbj⟩ | ⟨j, hj, hjlt, hbj⟩
    · obtain rfl : i = j := by omega
      exact h.overlay.inj hi hj
    · omega
    · omega
    · obtain rfl : i = j := by omega
      exact h.base.numbered.inj hi hj
  have hlt : paths.map fs.numberOf ⊆ List.range fs.nodeCount := by
    intro number hnumber
    obtain ⟨path, hpath, rfl⟩ := List.mem_map.mp hnumber
    rw [List.mem_range, nodeCount]
    rcases h.numberOf_cases (hexist path hpath) with ⟨id, -, hid, heq⟩ | ⟨id, -, hid, heq⟩ <;> omega
  calc paths.length
      = (paths.map fs.numberOf).length := (List.length_map _).symm
    _ ≤ (List.range fs.nodeCount).length :=
        (List.subperm_of_subset (List.Nodup.map_on hinj hnodup) hlt).length_le
    _ = fs.nodeCount := List.length_range

/-- Below the given names nothing exists more than `depth` levels down. -/
def Within (fs : FileSystem) (depth : Nat) (names : List String) : Prop :=
  ∀ more, AllNames more → (fs.lookup (ofNames (names ++ more))).isSome = true →
    more.length ≤ depth

/-- **No node is deeper than there are nodes.** -/
theorem Listed.within_nodeCount (h : fs.Listed) {names : List String} (hn : AllNames names) :
    fs.Within fs.nodeCount names := by
  intro more hmore hs
  have hall := Path.allNames_append.mpr ⟨hn, hmore⟩
  -- the paths on the way to a path that exists are different and exist as well
  have hexist : ∀ path ∈ Path.way (ofNames (names ++ more)), (fs.lookup path).isSome = true := by
    intro path hpath
    obtain ⟨above, hp, rfl⟩ := (Path.mem_way_ofNames hall).mp hpath
    by_contra hnone
    rw [h.treeClosed.eq_none_of_prefix hall hp (Option.not_isSome_iff_eq_none.mp hnone)] at hs
    cases hs
  have hlen :=
    h.wellFormed.length_le_nodeCount (Path.isCanonical_ofNames hall).nodup_way hexist
  rw [Path.length_way_ofNames hall, List.length_append] at hlen
  omega

theorem Within.append {depth : Nat} {names more : List String}
    (h : fs.Within (depth + more.length) names) (hmore : AllNames more) :
    fs.Within depth (names ++ more) := by
  intro rest hrest hs
  rw [List.append_assoc] at hs
  have hlen := h _ (Path.allNames_append.mpr ⟨hmore, hrest⟩) hs
  rw [List.length_append] at hlen
  omega

/-! ## The nodes below a node -/

/-- The nodes at most `depth` levels below a node, as a search goes through them. -/
def nodesBelow (fs : FileSystem) (depth : Nat) (entry : String × Node) : List (String × Node) :=
  if entry.2.isFolder then fs.descendants depth entry.1 else []

theorem nodesBelow_zero (fs : FileSystem) (entry : String × Node) : fs.nodesBelow 0 entry = [] :=
  ite_self []

theorem nodesBelow_succ (fs : FileSystem) (depth : Nat) {entry : String × Node}
    (hfolder : entry.2.isFolder = true) :
    fs.nodesBelow (depth + 1) entry
      = (fs.children entry.1).flatMap fun child => child :: fs.nodesBelow depth child :=
  if_pos hfolder

theorem nodesBelow_of_file (fs : FileSystem) (depth : Nat) {entry : String × Node}
    (hfile : ¬ entry.2.isFolder = true) : fs.nodesBelow depth entry = [] :=
  if_neg hfile

/-- One step of the walk: below a folder are its children and what is below them. -/
theorem Listed.mem_nodesBelow_succ (h : fs.Listed) {depth : Nat} {names : List String}
    {node : Node} (hn : AllNames names) (hfolder : node.isFolder = true)
    {entry : String × Node} :
    entry ∈ fs.nodesBelow (depth + 1) (ofNames names, node)
      ↔ ∃ name child, isName name = true ∧ fs.lookup (ofNames (names ++ [name])) = some child ∧
          (entry = (ofNames (names ++ [name]), child) ∨
            entry ∈ fs.nodesBelow depth (ofNames (names ++ [name]), child)) := by
  rw [nodesBelow_succ fs depth hfolder, List.mem_flatMap]
  constructor
  · rintro ⟨⟨_, child⟩, hchild, hmem⟩
    obtain ⟨name, hname, rfl, hlookup⟩ := (h.mem_children hn).mp hchild
    exact ⟨name, child, hname, hlookup, List.mem_cons.mp hmem⟩
  · rintro ⟨name, child, hname, hlookup, hmem⟩
    exact ⟨_, (h.mem_children hn).mpr ⟨name, hname, rfl, hlookup⟩, List.mem_cons.mpr hmem⟩

/-- **What is below a node**: the existing paths with more names, as far as the depth allows. -/
theorem Listed.mem_nodesBelow (h : fs.Listed) {depth : Nat} {names : List String} {node : Node}
    (hn : AllNames names) (hnode : fs.lookup (ofNames names) = some node) {path : String}
    {found : Node} :
    (path, found) ∈ fs.nodesBelow depth (ofNames names, node)
      ↔ ∃ more, more ≠ [] ∧ more.length ≤ depth ∧ AllNames more ∧
          path = ofNames (names ++ more) ∧ fs.lookup path = some found := by
  induction depth generalizing names node path found with
  | zero =>
      rw [nodesBelow_zero]
      constructor
      · intro hmem
        cases hmem
      · rintro ⟨more, hne, hlen, -⟩
        exact absurd (List.length_eq_zero_iff.mp (Nat.le_zero.mp hlen)) hne
  | succ depth ih =>
      by_cases hfolder : node.isFolder = true
      · rw [h.mem_nodesBelow_succ hn hfolder]
        constructor
        · rintro ⟨name, child, hname, hlookup, heq | hmem⟩
          · obtain ⟨rfl, rfl⟩ := Prod.mk.inj heq
            have hone := Path.allNames_cons.mpr ⟨hname, Path.allNames_nil⟩
            exact ⟨[name], by simp, by simp, hone, rfl, hlookup⟩
          · obtain ⟨more, -, hlen, hmore, rfl, hfound⟩ :=
              (ih (Path.allNames_concat.mpr ⟨hn, hname⟩) hlookup).mp hmem
            refine ⟨name :: more, by simp, ?_, Path.allNames_cons.mpr ⟨hname, hmore⟩, ?_, hfound⟩
            · exact Nat.succ_le_succ hlen
            · rw [List.append_assoc, List.singleton_append]
        · rintro ⟨more, hne, hlen, hmore, rfl, hfound⟩
          obtain ⟨name, rest, rfl⟩ := List.exists_cons_of_ne_nil hne
          obtain ⟨hname, hrest⟩ := Path.allNames_cons.mp hmore
          have hall := Path.allNames_concat.mpr ⟨hn, hname⟩
          have happ : names ++ name :: rest = names ++ [name] ++ rest := by simp
          rw [happ] at hfound ⊢
          -- the path is that of a child, or below one that is a folder
          by_cases hnil : rest = []
          · subst hnil
            rw [List.append_nil] at hfound ⊢
            exact ⟨name, found, hname, hfound, .inl rfl⟩
          · obtain ⟨child, hchild, -⟩ := h.treeClosed.hasFolder_of_append
              (Path.allNames_append.mpr ⟨hall, hrest⟩) hnil hfound
            refine ⟨name, child, hname, hchild, .inr ((ih hall hchild).mpr ?_)⟩
            exact ⟨rest, hnil, Nat.le_of_succ_le_succ hlen, hrest, rfl, hfound⟩
      · rw [nodesBelow_of_file fs _ hfolder]
        constructor
        · intro hmem
          cases hmem
        · -- a path with more names would make the node a folder
          rintro ⟨more, hne, -, hmore, rfl, hfound⟩
          obtain ⟨folder, heq, hf⟩ := h.treeClosed.hasFolder_of_append
            (Path.allNames_append.mpr ⟨hn, hmore⟩) hne hfound
          rw [hnode] at heq
          obtain rfl := Option.some.inj heq
          exact absurd hf hfolder

/-- The paths below a node. -/
def pathsBelow (fs : FileSystem) (depth : Nat) (entry : String × Node) : List String :=
  (fs.nodesBelow depth entry).map Prod.fst

theorem pathsBelow_zero (fs : FileSystem) (entry : String × Node) : fs.pathsBelow 0 entry = [] := by
  rw [pathsBelow, nodesBelow_zero, List.map_nil]

theorem pathsBelow_succ (fs : FileSystem) (depth : Nat) {entry : String × Node}
    (hfolder : entry.2.isFolder = true) :
    fs.pathsBelow (depth + 1) entry
      = (fs.children entry.1).flatMap fun child => child.1 :: fs.pathsBelow depth child := by
  rw [pathsBelow, nodesBelow_succ fs depth hfolder, List.map_flatMap]
  rfl

theorem pathsBelow_of_file (fs : FileSystem) (depth : Nat) {entry : String × Node}
    (hfile : ¬ entry.2.isFolder = true) : fs.pathsBelow depth entry = [] := by
  rw [pathsBelow, nodesBelow_of_file fs depth hfile, List.map_nil]

/-- What is found exists, and goes on with more names. -/
theorem Listed.exists_of_mem_pathsBelow (h : fs.Listed) {depth : Nat} {names : List String}
    {node : Node} (hn : AllNames names) (hnode : fs.lookup (ofNames names) = some node)
    {path : String} (hpath : path ∈ fs.pathsBelow depth (ofNames names, node)) :
    ∃ more, more ≠ [] ∧ AllNames (names ++ more) ∧ path = ofNames (names ++ more) ∧
      (fs.lookup path).isSome = true := by
  obtain ⟨⟨_, found⟩, hfound, rfl⟩ := List.mem_map.mp hpath
  obtain ⟨more, hne, -, hmore, rfl, hlookup⟩ := (h.mem_nodesBelow hn hnode).mp hfound
  exact ⟨more, hne, Path.allNames_append.mpr ⟨hn, hmore⟩, rfl, by rw [hlookup]; rfl⟩

/-- **Within its depth the walk finds all that is below a node**, and nothing else. -/
theorem Listed.mem_pathsBelow (h : fs.Listed) {depth : Nat} {names : List String} {node : Node}
    (hn : AllNames names) (hnode : fs.lookup (ofNames names) = some node)
    (hw : fs.Within depth names) {path : String} :
    path ∈ fs.pathsBelow depth (ofNames names, node)
      ↔ (fs.lookup path).isSome = true ∧ IsBelow (ofNames names) path := by
  constructor
  · intro hmem
    obtain ⟨more, hne, hall, rfl, hs⟩ := h.exists_of_mem_pathsBelow hn hnode hmem
    exact ⟨hs, (Path.isBelow_ofNames hn hall).mpr ⟨more, hne, rfl⟩⟩
  · rintro ⟨hs, hbelow⟩
    obtain ⟨found, hfound⟩ := Option.isSome_iff_exists.mp hs
    obtain ⟨q, hq, rfl⟩ := h.treeClosed.canonical _ _ hfound
    obtain ⟨more, hne, rfl⟩ := (Path.isBelow_ofNames hn hq).mp hbelow
    have hmore := (Path.allNames_append.mp hq).2
    exact List.mem_map.mpr ⟨_, (h.mem_nodesBelow hn hnode).mpr
      ⟨more, hne, hw more hmore hs, hmore, rfl, hfound⟩, rfl⟩

/-- A child and what is below it have the name of the child in their paths. -/
theorem Listed.exists_of_mem_cons_pathsBelow (h : fs.Listed) {depth : Nat} {names : List String}
    (hn : AllNames names) {child : String × Node} (hchild : child ∈ fs.children (ofNames names))
    {path : String} (hpath : path ∈ child.1 :: fs.pathsBelow depth child) :
    ∃ name more, child.1 = ofNames (names ++ [name]) ∧ path = ofNames (names ++ name :: more) ∧
      AllNames (names ++ name :: more) := by
  obtain ⟨_, node⟩ := child
  obtain ⟨name, hname, rfl, hlookup⟩ := (h.mem_children hn).mp hchild
  have hall := Path.allNames_concat.mpr ⟨hn, hname⟩
  rcases List.mem_cons.mp hpath with rfl | hpath
  · exact ⟨name, [], rfl, rfl, hall⟩
  · obtain ⟨more, -, hdeep, rfl, -⟩ := h.exists_of_mem_pathsBelow hall hlookup hpath
    rw [List.append_assoc, List.singleton_append] at hdeep ⊢
    exact ⟨name, more, rfl, rfl, hdeep⟩

/-- **No path comes twice below a node.** -/
theorem Listed.nodup_pathsBelow (h : fs.Listed) {depth : Nat} {names : List String} {node : Node}
    (hn : AllNames names) : (fs.pathsBelow depth (ofNames names, node)).Nodup := by
  induction depth generalizing names node with
  | zero =>
      rw [pathsBelow_zero]
      exact List.nodup_nil
  | succ depth ih =>
      by_cases hfolder : node.isFolder = true
      · rw [pathsBelow_succ fs depth hfolder, List.nodup_flatMap]
        constructor
        · rintro ⟨_, child⟩ hchild
          obtain ⟨name, hname, rfl, hlookup⟩ := (h.mem_children hn).mp hchild
          have hall := Path.allNames_concat.mpr ⟨hn, hname⟩
          refine List.nodup_cons.mpr ⟨fun hmem => ?_, ih hall⟩
          obtain ⟨more, hne, hdeep, heq, -⟩ := h.exists_of_mem_pathsBelow hall hlookup hmem
          exact hne (List.self_eq_append_right.mp ((Path.ofNames_inj hall hdeep).mp heq))
        · -- the paths below two children differ in the name of the child
          have hdistinct := h.nodup_childPaths hn
          rw [childPaths, List.nodup_iff_pairwise_ne, List.pairwise_map] at hdistinct
          refine hdistinct.imp_of_mem ?_
          intro a b ha hb hne path hpa hpb
          obtain ⟨name, more, hna, rfl, hall⟩ := h.exists_of_mem_cons_pathsBelow hn ha hpa
          obtain ⟨other, rest, hnb, heq, hall'⟩ := h.exists_of_mem_cons_pathsBelow hn hb hpb
          have hnames := List.append_cancel_left ((Path.ofNames_inj hall hall').mp heq)
          rw [hna, hnb, (List.cons.inj hnames).1] at hne
          exact hne rfl
      · rw [pathsBelow_of_file fs _ hfolder]
        exact List.nodup_nil

/-- **Below a folder the paths with that parent are its children**, in the order in which the
folder lists them. -/
theorem Listed.filter_pathsBelow (h : fs.Listed) {depth : Nat} {names : List String} {node : Node}
    (hn : AllNames names) (hfolder : node.isFolder = true) (hw : fs.Within depth names) :
    (fs.pathsBelow depth (ofNames names, node)).filter
        (fun path => Path.parent path = ofNames names)
      = fs.childPaths (ofNames names) := by
  cases depth with
  | zero =>
      -- no level is left, and there is no child that would need one
      rw [pathsBelow_zero, childPaths, Eq.comm]
      refine List.map_eq_nil_iff.mpr (List.eq_nil_iff_forall_not_mem.mpr ?_)
      rintro ⟨_, child⟩ hchild
      obtain ⟨name, hname, rfl, hlookup⟩ := (h.mem_children hn).mp hchild
      have hone := (Path.allNames_append.mp (Path.allNames_concat.mpr ⟨hn, hname⟩)).2
      exact absurd (hw [name] hone (by rw [hlookup]; rfl)) (by simp)
  | succ depth =>
      rw [pathsBelow_succ fs depth hfolder, List.filter_flatMap, childPaths,
        ← List.flatMap_pure_eq_map]
      refine List.flatMap_congr ?_
      rintro ⟨_, child⟩ hchild
      obtain ⟨name, hname, rfl, hlookup⟩ := (h.mem_children hn).mp hchild
      have hall := Path.allNames_concat.mpr ⟨hn, hname⟩
      rw [List.filter_cons, if_pos (decide_eq_true (Path.parent_ofNames hn hname))]
      refine congrArg (_ :: ·) (List.filter_eq_nil_iff.mpr ?_)
      intro path hpath heq
      obtain ⟨more, hne, hdeep, rfl, -⟩ := h.exists_of_mem_pathsBelow hall hlookup hpath
      rw [decide_eq_true_eq, Path.parent_ofNames_dropLast hdeep,
        Path.ofNames_inj (hdeep.of_prefix (List.dropLast_prefix _)) hn] at heq
      have hlen := congrArg List.length heq
      have hpos := List.length_pos_iff.mpr hne
      simp only [List.length_dropLast, List.length_append, List.length_singleton] at hlen
      omega

/-- **What is below a node that is found follows it**, as it would be found from there. -/
theorem Listed.exists_split (h : fs.Listed) {depth : Nat} {names : List String} {node : Node}
    (hn : AllNames names) {entry : String × Node}
    (hmem : entry ∈ fs.nodesBelow depth (ofNames names, node)) :
    ∃ before after left more, AllNames more ∧ entry.1 = ofNames (names ++ more) ∧
      left + more.length = depth ∧
      fs.nodesBelow depth (ofNames names, node)
        = before ++ entry :: (fs.nodesBelow left entry ++ after) := by
  induction depth generalizing names node with
  | zero =>
      rw [nodesBelow_zero] at hmem
      cases hmem
  | succ depth ih =>
      by_cases hfolder : node.isFolder = true
      · rw [nodesBelow_succ fs depth hfolder] at hmem ⊢
        obtain ⟨⟨path, child⟩, hchild, hmem⟩ := List.mem_flatMap.mp hmem
        obtain ⟨name, hname, rfl, -⟩ := (h.mem_children hn).mp hchild
        have hall := Path.allNames_concat.mpr ⟨hn, hname⟩
        have hone := (Path.allNames_append.mp hall).2
        -- the walk is cut at the child that the node is, or that it is below
        obtain ⟨first, last, hsplit⟩ := List.append_of_mem hchild
        rw [hsplit, List.flatMap_append, List.flatMap_cons]
        rcases List.mem_cons.mp hmem with rfl | hmem
        · exact ⟨_, _, depth, [name], hone, rfl, rfl, by rw [List.cons_append]⟩
        · obtain ⟨before, after, left, more, hmore, hpath, hleft, heq⟩ := ih hall hmem
          refine ⟨first.flatMap (fun child => child :: fs.nodesBelow depth child)
              ++ (ofNames (names ++ [name]), child) :: before,
            after ++ last.flatMap (fun child => child :: fs.nodesBelow depth child),
            left, name :: more, Path.allNames_append.mpr ⟨hone, hmore⟩, ?_, ?_, ?_⟩
          · rw [hpath, List.append_assoc, List.singleton_append]
          · rw [List.length_cons]
            omega
          · rw [heq]
            simp only [List.append_assoc, List.cons_append]
      · rw [nodesBelow_of_file fs _ hfolder] at hmem
        cases hmem

/-! ## A list with a stretch in it -/

section Stretch

variable {α : Type} {before below after : List α} {a : α}

theorem sublist_stretch : (before ++ a :: after).Sublist (before ++ a :: (below ++ after)) :=
  ((List.sublist_append_right below after).cons_cons a).append_left before

/-- When nothing comes twice, nothing of the stretch stands outside it. -/
theorem notMem_of_nodup_stretch (h : (before ++ a :: (below ++ after)).Nodup) {x : α}
    (hx : x ∈ below) : x ∉ before ++ a :: after := by
  rw [List.nodup_append, List.nodup_cons, List.nodup_append] at h
  obtain ⟨-, ⟨ha, -, -, hafter⟩, hbefore⟩ := h
  rw [List.mem_append, List.mem_cons]
  rintro (hmem | rfl | hmem)
  · exact hbefore x hmem x (List.mem_cons_of_mem _ (List.mem_append_left _ hx)) rfl
  · exact ha (List.mem_append_left _ hx)
  · exact hafter x hx x hmem rfl

/-- When only the stretch has elements of a kind, it has all of them. -/
theorem filter_stretch (p : α → Bool) (h : ∀ x ∈ before ++ a :: after, ¬ p x = true) :
    (before ++ a :: (below ++ after)).filter p = below.filter p := by
  simp only [List.forall_mem_append, List.forall_mem_cons] at h
  obtain ⟨hbefore, ha, hafter⟩ := h
  rw [List.filter_append, List.filter_eq_nil_iff.mpr hbefore, List.nil_append,
    List.filter_cons_of_neg ha, List.filter_append, List.filter_eq_nil_iff.mpr hafter,
    List.append_nil]

end Stretch

/-! ## The order of the paths -/

/-- **The paths below a node in order**: what is below a path that is found follows it, and is all
that is below it. -/
theorem Listed.pathsBelow_split (h : fs.Listed) {depth : Nat} {names : List String} {node : Node}
    (hn : AllNames names) (hnode : fs.lookup (ofNames names) = some node)
    (hw : fs.Within depth names) {dir : String}
    (hdir : dir ∈ fs.pathsBelow depth (ofNames names, node)) :
    ∃ before after left more found, AllNames (names ++ more) ∧ dir = ofNames (names ++ more) ∧
      fs.lookup dir = some found ∧ fs.Within left (names ++ more) ∧
      fs.pathsBelow depth (ofNames names, node)
        = before ++ dir :: (fs.pathsBelow left (dir, found) ++ after) ∧
      ∀ path ∈ before ++ dir :: after, ¬ IsBelow dir path := by
  obtain ⟨⟨_, found⟩, hmem, rfl⟩ := List.mem_map.mp hdir
  obtain ⟨_, -, -, -, -, hfound⟩ := (h.mem_nodesBelow hn hnode).mp hmem
  obtain ⟨before, after, left, more, hmore, rfl, rfl, heq⟩ := h.exists_split hn hmem
  have hall := Path.allNames_append.mpr ⟨hn, hmore⟩
  have hleft := hw.append hmore
  have hpaths : fs.pathsBelow (left + more.length) (ofNames names, node)
      = before.map Prod.fst ++ ofNames (names ++ more)
        :: (fs.pathsBelow left (ofNames (names ++ more), found) ++ after.map Prod.fst) := by
    rw [pathsBelow, heq, List.map_append, List.map_cons, List.map_append]
    rfl
  refine ⟨_, _, left, more, found, hall, rfl, hfound, hleft, hpaths, ?_⟩
  intro path hpath hbelow
  -- a path below the node stands in the stretch, and no path stands in two places
  have hmem : path ∈ fs.pathsBelow (left + more.length) (ofNames names, node) := by
    rw [hpaths]
    exact sublist_stretch.subset hpath
  have hinside := (h.mem_pathsBelow hall hfound hleft).mpr
    ⟨((h.mem_pathsBelow hn hnode hw).mp hmem).1, hbelow⟩
  have hnodup : (fs.pathsBelow (left + more.length) (ofNames names, node)).Nodup :=
    h.nodup_pathsBelow hn
  rw [hpaths] at hnodup
  exact notMem_of_nodup_stretch hnodup hinside hpath

/-- A path that is found is below its parent. -/
theorem Listed.isBelow_parent (h : fs.Listed) {depth : Nat} {names : List String} {node : Node}
    (hn : AllNames names) (hnode : fs.lookup (ofNames names) = some node) {path : String}
    (hpath : path ∈ fs.pathsBelow depth (ofNames names, node)) :
    IsBelow (Path.parent path) path := by
  obtain ⟨more, hne, hall, rfl, -⟩ := h.exists_of_mem_pathsBelow hn hnode hpath
  exact Path.isBelow_parent (Path.isCanonical_ofNames hall)
    (Path.ofNames_ne_root hall (by simp [hne]))

/-- **For each folder that is found the paths with that parent are its children**, in the order in
which it lists them. -/
theorem Listed.filter_pathsBelow_of_mem (h : fs.Listed) {depth : Nat} {names : List String}
    {node : Node} (hn : AllNames names) (hnode : fs.lookup (ofNames names) = some node)
    (hw : fs.Within depth names) {dir : String}
    (hmem : dir ∈ fs.pathsBelow depth (ofNames names, node)) (hdir : fs.HasFolder dir) :
    (fs.pathsBelow depth (ofNames names, node)).filter (fun path => Path.parent path = dir)
      = fs.childPaths dir := by
  obtain ⟨before, after, left, more, found, hall, rfl, hfound, hleft, heq, hother⟩ :=
    h.pathsBelow_split hn hnode hw hmem
  obtain ⟨folder, hfolder, hf⟩ := hdir
  obtain rfl := Option.some.inj (hfolder.symm.trans hfound)
  -- a path with this parent is below it, and those stand in the stretch
  have hnone : ∀ path ∈ before ++ ofNames (names ++ more) :: after,
      ¬ decide (Path.parent path = ofNames (names ++ more)) = true := by
    intro path hpath hparent
    have hpath' : path ∈ fs.pathsBelow depth (ofNames names, node) := by
      rw [heq]
      exact sublist_stretch.subset hpath
    have hbelow := h.isBelow_parent hn hnode hpath'
    rw [of_decide_eq_true hparent] at hbelow
    exact hother path hpath hbelow
  rw [heq, filter_stretch _ hnone, h.filter_pathsBelow hall hf hleft]

end FileSystem

end PocketShell
