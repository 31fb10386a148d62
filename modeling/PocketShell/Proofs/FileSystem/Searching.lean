import PocketShell.Proofs.FileSystem.Below

set_option autoImplicit false

/-! # A search goes through everything below a folder

What is below a node is found in preorder (`Listed.isPreorder`). That needs no induction of its own:
what is below a path that is found follows it in one stretch, no path comes twice, and so nothing of
the stretch stands elsewhere.

The search itself is told a second time, without a bound on the depth (`Collects`): a node that is
wanted gives its path, and what is in a folder is gone through before the next sibling. This comes
to an end with one list only, and the list is what the bounded search answers (`find_preorder`).
-/

namespace PocketShell

open PocketShell.Path (AllNames ofNames IsBelow)

namespace FileSystem

variable {fs : FileSystem}

/-! ## The order of the paths -/

/-- **A list of paths goes through everything below a folder**: each existing path below it comes
once. What is below a path follows it in one stretch, and nothing of it stands elsewhere. The
children of each folder come in stored order. -/
structure IsPreorder (fs : FileSystem) (start : String) (paths : List String) : Prop where
  nodup : paths.Nodup
  mem_iff : ∀ path, path ∈ paths ↔ (fs.lookup path).isSome = true ∧ IsBelow start path
  contiguous : ∀ dir ∈ paths, ∃ before below after, paths = before ++ dir :: (below ++ after) ∧
    (∀ path ∈ below, IsBelow dir path) ∧ ∀ path ∈ before ++ after, ¬ IsBelow dir path
  siblings : ∀ dir, fs.HasFolder dir → dir = start ∨ dir ∈ paths →
    fs.InStoredOrder dir (paths.filter fun path => Path.parent path = dir)

/-- **The walk below a node is in preorder.** -/
theorem Listed.isPreorder (h : fs.Listed) {depth : Nat} {names : List String} {node : Node}
    (hn : AllNames names) (hnode : fs.lookup (ofNames names) = some node)
    (hw : fs.Within depth names) :
    fs.IsPreorder (ofNames names) (fs.pathsBelow depth (ofNames names, node)) := by
  refine ⟨h.nodup_pathsBelow hn, fun path => h.mem_pathsBelow hn hnode hw, ?_, ?_⟩
  · intro dir hdir
    obtain ⟨before, after, left, more, found, hall, rfl, hfound, hleft, heq, hother⟩ :=
      h.pathsBelow_split hn hnode hw hdir
    refine ⟨before, _, after, heq, fun path hpath => ?_, fun path hpath => hother path ?_⟩
    · exact ((h.mem_pathsBelow hall hfound hleft).mp hpath).2
    · exact (List.sublist_cons_self _ _).append_left before |>.subset hpath
  · rintro dir hdir (rfl | hmem)
    · obtain ⟨folder, hfolder, hf⟩ := hdir
      obtain rfl := Option.some.inj (hfolder.symm.trans hnode)
      rw [h.filter_pathsBelow hn hf hw]
      exact h.wellFormed.inStoredOrder _
    · rw [h.filter_pathsBelow_of_mem hn hnode hw hmem hdir]
      exact h.wellFormed.inStoredOrder _

/-! ## The walk without a bound -/

/-- **A search through siblings**, with no bound on the depth: a node that is wanted gives its
path, and what is in a folder is gone through before its next sibling. -/
inductive Collects (fs : FileSystem) (search : Search) :
    List (String × Node) → List String → Prop where
  | nil : Collects fs search [] []
  | file {path : String} {node : Node} {rest : List (String × Node)} {after : List String}
      (hfile : node.isFolder = false) (hrest : Collects fs search rest after) :
      Collects fs search ((path, node) :: rest)
        ((if search.finds node then [path] else []) ++ after)
  | folder {path : String} {node : Node} {rest : List (String × Node)}
      {below after : List String} (hfolder : node.isFolder = true)
      (hbelow : Collects fs search (fs.children path) below)
      (hrest : Collects fs search rest after) :
      Collects fs search ((path, node) :: rest)
        ((if search.finds node then [path] else []) ++ (below ++ after))

/-- A search finds one list of paths only. -/
theorem Collects.unique {search : Search} {siblings : List (String × Node)}
    {found other : List String} (h : fs.Collects search siblings found)
    (h' : fs.Collects search siblings other) : found = other := by
  induction h generalizing other with
  | nil =>
      cases h'
      rfl
  | file hfile hrest ih =>
      cases h' with
      | file _ hrest' => rw [ih hrest']
      | folder hfolder => simp [hfile] at hfolder
  | folder hfolder hbelow hrest ihbelow ihrest =>
      cases h' with
      | file hfile => simp [hfolder] at hfile
      | folder _ hbelow' hrest' => rw [ihbelow hbelow', ihrest hrest']

/-- The paths of the nodes below a node that a search finds. -/
def found (fs : FileSystem) (search : Search) (depth : Nat) (entry : String × Node) :
    List String :=
  ((fs.nodesBelow depth entry).filter fun found => search.finds found.2).map Prod.fst

theorem found_succ (fs : FileSystem) (search : Search) (depth : Nat) {entry : String × Node}
    (hfolder : entry.2.isFolder = true) :
    fs.found search (depth + 1) entry
      = (fs.children entry.1).flatMap fun child =>
          (if search.finds child.2 then [child.1] else []) ++ fs.found search depth child := by
  rw [found, nodesBelow_succ fs depth hfolder, List.filter_flatMap, List.map_flatMap]
  refine List.flatMap_congr fun child _ => ?_
  rw [List.filter_cons]
  split_ifs <;> rfl

theorem found_of_file (fs : FileSystem) (search : Search) (depth : Nat) {entry : String × Node}
    (hfile : ¬ entry.2.isFolder = true) : fs.found search depth entry = [] := by
  rw [found, nodesBelow_of_file fs depth hfile, List.filter_nil, List.map_nil]

/-- Siblings are gone through when each folder among them is. -/
theorem collects_flatMap {search : Search} {depth : Nat} {siblings : List (String × Node)}
    (h : ∀ child ∈ siblings, child.2.isFolder = true →
      fs.Collects search (fs.children child.1) (fs.found search depth child)) :
    fs.Collects search siblings (siblings.flatMap fun child =>
      (if search.finds child.2 then [child.1] else []) ++ fs.found search depth child) := by
  induction siblings with
  | nil => exact .nil
  | cons child rest ih =>
      obtain ⟨hchild, hrest⟩ := List.forall_mem_cons.mp h
      rw [List.flatMap_cons, List.append_assoc]
      by_cases hfolder : child.2.isFolder = true
      · exact .folder hfolder (hchild hfolder) (ih hrest)
      · rw [found_of_file fs search depth hfolder, List.nil_append]
        exact .file (Bool.eq_false_iff.mpr hfolder) (ih hrest)

/-- **Within its depth the search comes to an end by itself**, with what it finds. -/
theorem Listed.collects (h : fs.Listed) (search : Search) {depth : Nat} {names : List String}
    {node : Node} (hn : AllNames names) (hfolder : node.isFolder = true)
    (hw : fs.Within depth names) :
    fs.Collects search (fs.children (ofNames names))
      (fs.found search depth (ofNames names, node)) := by
  induction depth generalizing names node with
  | zero =>
      -- at the end of the depth there are no children
      have hnone := h.filter_pathsBelow hn hfolder hw
      rw [pathsBelow_zero, List.filter_nil, childPaths, Eq.comm, List.map_eq_nil_iff] at hnone
      rw [hnone, found, nodesBelow_zero]
      exact .nil
  | succ depth ih =>
      rw [found_succ fs search depth hfolder]
      refine collects_flatMap ?_
      rintro ⟨_, child⟩ hchild hf
      obtain ⟨name, hname, rfl, -⟩ := (h.mem_children hn).mp hchild
      have hall := Path.allNames_concat.mpr ⟨hn, hname⟩
      have hone := (Path.allNames_append.mp hall).2
      exact ih hall hf (hw.append hone)

/-! ## What a search answers -/

theorem find_eq {input : String} {node : Node} (hnode : fs.node? input = some node)
    (search : Search) :
    fs.find input search = .ok (fs.found search fs.nodeCount (fs.resolve input, node)) := by
  have hlookup : fs.lookup (fs.resolve input) = some node := hnode
  have hrequire : fs.require (fs.resolve input) = .ok node := by simp only [require, hlookup]
  rw [find]
  show (fs.require (fs.resolve input) >>= _) = _
  rw [hrequire]
  show (if node.isFolder then _ else _) = _
  by_cases hfolder : node.isFolder = true
  · rw [if_pos hfolder, found, nodesBelow, if_pos hfolder]
    rfl
  · rw [if_neg hfolder, found_of_file fs search _ hfolder]
    rfl

theorem found_default (fs : FileSystem) (depth : Nat) (entry : String × Node) :
    fs.found {} depth entry = fs.pathsBelow depth entry := by
  exact congrArg _ (List.filter_eq_self.mpr fun _ _ => rfl)

/-- What is wanted is a part of what is there, in the same order. -/
theorem Listed.found_eq_filter (h : fs.Listed) (search : Search) {depth : Nat}
    {names : List String} {node : Node} (hn : AllNames names)
    (hnode : fs.lookup (ofNames names) = some node) :
    fs.found search depth (ofNames names, node)
      = (fs.pathsBelow depth (ofNames names, node)).filter fun path =>
          (fs.lookup path).any search.finds := by
  rw [found, pathsBelow, List.filter_map]
  refine congrArg _ (List.filter_congr ?_)
  rintro ⟨path, found⟩ hmem
  obtain ⟨_, -, -, -, -, hfound⟩ := (h.mem_nodesBelow hn hnode).mp hmem
  rw [Function.comp_apply, hfound, Option.any_some]

/-- **A search finds what is below its start, in order.** From every existing start it comes to an
end, however the folders are nested. With nothing asked for it gives each existing path below the
start once, every folder before what it holds and its children in stored order; from a file it
gives nothing. With a pattern or a kind it gives the part of these paths whose nodes have both, in
the same order. Stored order is that of creation: whatever is performed later, the children that a
folder has stay where they are. -/
theorem find_preorder (h : fs.Reachable) {input : String} {node : Node}
    (hnode : fs.node? input = some node) (search : Search) :
    ∃ all wanted, fs.find input {} = .ok all ∧ fs.find input search = .ok wanted ∧
      (node.isFolder = true → ∀ paths,
        fs.Collects search (fs.children (fs.resolve input)) paths ↔ paths = wanted) ∧
      (node.isFolder = false → all = []) ∧
      fs.IsPreorder (fs.resolve input) all ∧
      wanted = all.filter (fun path => (fs.lookup path).any search.finds) ∧
      ∀ operations dir, fs.childPaths dir <+: (fs.run operations).2.childPaths dir := by
  have hlisted := h.listed
  obtain ⟨names, hn, hstart⟩ := Path.isCanonical_resolve fs.cwd input
  have hresolve : fs.resolve input = ofNames names := hstart
  have hlookup : fs.lookup (ofNames names) = some node := by rwa [node?, hresolve] at hnode
  -- the depth of the search is enough, so its bound can be forgotten
  have hw := hlisted.within_nodeCount hn
  refine ⟨_, _, (find_eq hnode {}).trans (congrArg _ (found_default _ _ _)), find_eq hnode search,
    ?_, ?_, ?_, ?_, h.childPaths_run⟩
  · intro hfolder paths
    rw [hresolve]
    have hcollects := hlisted.collects search hn hfolder hw
    constructor
    · exact fun hpaths => hpaths.unique hcollects
    · rintro rfl
      exact hcollects
  · intro hfile
    exact pathsBelow_of_file fs _ (Bool.eq_false_iff.mp hfile)
  · rw [hresolve]
    exact hlisted.isPreorder hn hlookup hw
  · rw [hresolve]
    exact hlisted.found_eq_filter search hn hlookup

/-- A search of a folder of the base that has got a new time in one file and two new folders. -/
theorem find_preorder_home :
    let base := (Base.none.addRecord Path.root
      (.folder "" [.folder "home" [.file "note" ""], .file "log" ""])).1
    let made := (({ base } : FileSystem).perform (.makeFolder "home/x/y" true)).2
    let state := ((made.perform (.touch "new")).2.perform (.touch "home/note")).2
    state.Reachable ∧ ∃ all wanted, state.find "home" {} = .ok all ∧
      state.find "home" { kind := some .file } = .ok wanted ∧ state.IsPreorder "/home" all ∧
      "/home" ∉ all ∧ "/home/x/y" ∈ all ∧ "/home/x/y" ∉ wanted ∧ "/home/note" ∈ wanted := by
  intro base made state
  have hrecord : FileSystem.ofRecord (.folder "" [.folder "home" [.file "note" ""], .file "log" ""])
      = .ok { base } := rfl
  have hstate : state.Reachable :=
    (((Reachable.start hrecord "guest" 0 []).step _).step _).step _
  obtain ⟨node, hnode⟩ : ∃ node, state.node? "home" = some node :=
    Option.isSome_iff_exists.mp (by decide +kernel)
  have hstart : state.resolve "home" = "/home" := by decide +kernel
  obtain ⟨all, wanted, hall, hwanted, -, -, hpreorder, rfl, -⟩ :=
    find_preorder hstate hnode { kind := some .file }
  rw [hstart] at hpreorder
  have hmem : "/home/x/y" ∈ all ∧ "/home/note" ∈ all :=
    ⟨(hpreorder.mem_iff _).mpr ⟨by decide +kernel, by decide +kernel, 2, by decide +kernel⟩,
      (hpreorder.mem_iff _).mpr ⟨by decide +kernel, by decide +kernel, 1, by decide +kernel⟩⟩
  refine ⟨hstate, all, _, hall, hwanted, hpreorder, ?_, hmem.1, ?_, ?_⟩
  · exact fun hself => ((hpreorder.mem_iff _).mp hself).2.1 rfl
  · rw [List.mem_filter, not_and]
    exact fun _ => by decide +kernel
  · exact List.mem_filter.mpr ⟨hmem.2, by decide +kernel⟩

end FileSystem

end PocketShell
