import PocketShell.Proofs.FileSystem.Drawing
import PocketShell.Proofs.FileSystem.Searching

set_option autoImplicit false

/-! # What the look-ups determine

Children are stored in the order in which they were made, but what a user sees of a folder is put
in order first. So two file systems with the same node at each path show the same listings and
drawings, whatever has led to them, and searches find the same paths, though not in the same order
(`Alike.showsSame`).
-/

namespace PocketShell

open PocketShell.Path (AllNames ofNames)

namespace FileSystem

/-- **Two file systems are alike**: they have the same node at each path, and what is named from the
working directory or shown as the owner is the same. -/
structure Alike (fs other : FileSystem) : Prop where
  lookup_eq : ∀ path, other.lookup path = fs.lookup path
  cwd_eq : other.cwd = fs.cwd
  owner_eq : other.owner = fs.owner

/-- Two answers of a search are the same but for the order of what is found. -/
inductive SameFound : Except FileError (List String) → Except FileError (List String) → Prop where
  | error (e : FileError) : SameFound (.error e) (.error e)
  | ok {found other : List String} (h : found.Perm other) : SameFound (.ok found) (.ok other)

/-- **Two file systems show the same** when looked at: the same node at each path, the same listings
and drawings of everything, and searches that differ in the order of what they find at most. -/
structure ShowsSame (fs other : FileSystem) : Prop where
  lookup_eq : ∀ path, other.lookup path = fs.lookup path
  list_eq : ∀ input options, other.list input options = fs.list input options
  draw_eq : ∀ input depth, other.draw input depth = fs.draw input depth
  find_same : ∀ input search, SameFound (fs.find input search) (other.find input search)

/-- Siblings are drawn by what is below them, so only that has to be compared. -/
theorem drawSiblings_congr {rowsBelow rowsBelow' : String → String → List DrawnRow}
    {siblings : List (String × Node)}
    (h : ∀ child ∈ siblings, ∀ indent, rowsBelow child.1 indent = rowsBelow' child.1 indent)
    (indent : String) :
    drawSiblings rowsBelow indent siblings = drawSiblings rowsBelow' indent siblings := by
  induction siblings with
  | nil => rfl
  | cons child rest ih =>
      obtain ⟨hchild, hrest⟩ := List.forall_mem_cons.mp h
      simp only [drawSiblings, hchild, ih hrest]

namespace Alike

variable {fs other : FileSystem}

theorem resolve_eq (h : fs.Alike other) (input : String) :
    other.resolve input = fs.resolve input := resolve_of_cwd_eq h.cwd_eq input

theorem entry_eq (h : fs.Alike other) (options : ListOptions) (name : String) (node : Node) :
    other.entry options name node = fs.entry options name node := by
  simp only [entry, longLine, h.owner_eq]

/-- **The children of a folder, put in order, are the same.** -/
theorem sortedChildren_eq (h : fs.Alike other) (hfs : fs.Listed) (hother : other.Listed)
    {names : List String} (hn : AllNames names) :
    other.sortedChildren (ofNames names) = fs.sortedChildren (ofNames names) := by
  refine StandsBefore.eq_of_mem_iff (hother.pairwise_sortedChildren hn)
    (hfs.pairwise_sortedChildren hn) fun child => ?_
  rw [hother.mem_sortedChildren hn, hfs.mem_sortedChildren hn, h.lookup_eq]

theorem list_eq (h : fs.Alike other) (hfs : fs.Listed) (hother : other.Listed)
    (input : Option String) (options : ListOptions) :
    other.list input options = fs.list input options := by
  have hresolve : other.resolve = fs.resolve := funext h.resolve_eq
  have hpath : other.listedPath input = fs.listedPath input := by
    rw [listedPath, listedPath, hresolve, h.cwd_eq]
  have hentry : other.entry = fs.entry := funext₃ h.entry_eq
  cases hnode : fs.lookup (fs.listedPath input) with
  | none =>
      rw [list_of_none hnode, list_of_none, hpath]
      rw [hpath, h.lookup_eq, hnode]
  | some node =>
      have hnode' : other.lookup (other.listedPath input) = some node := by
        rw [hpath, h.lookup_eq, hnode]
      by_cases hfolder : node.isFolder = true
      · obtain ⟨names, hn, hnames⟩ := hfs.treeClosed.canonical _ _ hnode
        have hrows : other.childRows options (fs.listedPath input)
            = fs.childRows options (fs.listedPath input) := by
          rw [childRows, hnames, h.sortedChildren_eq hfs hother hn, hentry, childRows]
        have habove : other.rowsAbove options (fs.listedPath input) node
            = fs.rowsAbove options (fs.listedPath input) node := by
          rw [rowsAbove, hentry, h.lookup_eq, rowsAbove]
        rw [list_of_folder hnode hfolder, list_of_folder hnode' hfolder, hpath, hrows, habove]
      · have hfile := Bool.eq_false_iff.mpr hfolder
        rw [list_of_file hnode hfile, list_of_file hnode' hfile, hpath, hentry]

theorem drawRows_eq (h : fs.Alike other) (hfs : fs.Listed) (hother : other.Listed) (depth : Nat)
    {names : List String} (hn : AllNames names) (indent : String) :
    other.drawRows depth (ofNames names) indent = fs.drawRows depth (ofNames names) indent := by
  induction depth generalizing names indent with
  | zero => rfl
  | succ depth ih =>
      rw [drawRows, drawRows, h.sortedChildren_eq hfs hother hn]
      refine drawSiblings_congr (fun child hchild indent => ?_) indent
      obtain ⟨hname, hpath, -⟩ := (hfs.mem_sortedChildren hn).mp hchild
      rw [hpath, Path.child_ofNames hn]
      exact ih (Path.allNames_concat.mpr ⟨hn, hname⟩) indent

theorem draw_eq (h : fs.Alike other) (hfs : fs.Listed) (hother : other.Listed) (input : String)
    (depth : Nat) : other.draw input depth = fs.draw input depth := by
  obtain ⟨names, hn, hnames⟩ := Path.isCanonical_resolve fs.cwd input
  have hresolve : fs.resolve input = ofNames names := hnames
  simp only [draw, h.resolve_eq, requireFolder, h.lookup_eq, hresolve,
    h.drawRows_eq hfs hother depth hn]

/-- **A search finds the same paths**: those below its start whose nodes are wanted, each once. -/
theorem find_same (h : fs.Alike other) (hfs : fs.Listed) (hother : other.Listed) (input : String)
    (search : Search) : SameFound (fs.find input search) (other.find input search) := by
  obtain ⟨names, hn, hnames⟩ := Path.isCanonical_resolve fs.cwd input
  have hresolve : fs.resolve input = ofNames names := hnames
  have hresolve' : other.resolve input = ofNames names := (h.resolve_eq input).trans hresolve
  cases hnode : fs.lookup (ofNames names) with
  | none =>
      simp only [find, require, hresolve, hresolve', h.lookup_eq, hnode]
      exact .error _
  | some node =>
      have hnode' : other.lookup (ofNames names) = some node := by rw [h.lookup_eq, hnode]
      rw [find_eq (by rwa [node?, hresolve]), find_eq (by rwa [node?, hresolve']), hresolve,
        hresolve', hfs.found_eq_filter search hn hnode, hother.found_eq_filter search hn hnode']
      refine .ok ((List.perm_ext_iff_of_nodup ?_ ?_).mpr fun path => ?_)
      · exact (hfs.nodup_pathsBelow hn).filter _
      · exact (hother.nodup_pathsBelow hn).filter _
      · -- each bound is enough for its own file system, so both walks find what is below
        rw [List.mem_filter, List.mem_filter,
          hfs.mem_pathsBelow hn hnode (hfs.within_nodeCount hn),
          hother.mem_pathsBelow hn hnode' (hother.within_nodeCount hn), h.lookup_eq]

/-- **What is alike shows the same.** -/
theorem showsSame (h : fs.Alike other) (hfs : fs.Listed) (hother : other.Listed) :
    fs.ShowsSame other :=
  ⟨h.lookup_eq, h.list_eq hfs hother, h.draw_eq hfs hother, h.find_same hfs hother⟩

end Alike

end FileSystem

end PocketShell
