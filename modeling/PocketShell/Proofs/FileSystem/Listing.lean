import PocketShell.FileSystem.Listing
import PocketShell.Proofs.FileSystem.Children
import PocketShell.Proofs.Text.ByteOrder

set_option autoImplicit false

/-! # What a listing shows

A listing sorts the children of a folder by comparing their nodes. Since the children of a folder
have different names, the order is strict and does not depend on how the children are stored
(`StandsBefore`, `Listed.pairwise_sortedChildren`). With what is known of the children a listing is
then told by the look-ups alone: one row for each existing path in the folder, and with `all` before
them one for the folder and one for its parent, which exists because the existing paths form a
tree (`list_shows_children`).
-/

namespace PocketShell

open PocketShell.Path (AllNames ofNames isName)

/-! ## The order of listings -/

/-- **The order of listings**, by name and kind: folders before files, and names of one kind by
their bytes. -/
def StandsBefore (a b : String × NodeKind) : Prop :=
  a.2 = .folder ∧ b.2 = .file ∨ a.2 = b.2 ∧ Text.bytes a.1 < Text.bytes b.1

theorem StandsBefore.irrefl (a : String × NodeKind) : ¬ StandsBefore a a := by
  rintro (⟨hfolder, hfile⟩ | ⟨-, hlt⟩)
  · rw [hfolder] at hfile
    cases hfile
  · exact List.lt_irrefl _ hlt

theorem StandsBefore.asymm {a b : String × NodeKind} (h : StandsBefore a b) :
    ¬ StandsBefore b a := by
  rcases h with ⟨ha, hb⟩ | ⟨hkind, hlt⟩
  · rintro (⟨hb', -⟩ | ⟨hkind, -⟩) <;> simp_all
  · rintro (⟨hb, ha⟩ | ⟨-, hgt⟩)
    · simp_all
    · exact List.lt_asymm hlt hgt

/-- The order is strict, so what is in order is determined by its members. -/
theorem StandsBefore.eq_of_mem_iff {α : Type} {label : α → String × NodeKind} {l l' : List α}
    (h : l.Pairwise fun a b => StandsBefore (label a) (label b))
    (h' : l'.Pairwise fun a b => StandsBefore (label a) (label b))
    (hmem : ∀ a, a ∈ l ↔ a ∈ l') : l = l' := by
  have hnodup : ∀ {l : List α}, (l.Pairwise fun a b => StandsBefore (label a) (label b)) →
      l.Nodup := by
    intro l hl
    refine hl.imp ?_
    rintro a _ hbefore rfl
    exact StandsBefore.irrefl _ hbefore
  refine List.Perm.eq_of_pairwise ?_ h h'
    ((List.perm_ext_iff_of_nodup (hnodup h) (hnodup h')).mpr hmem)
  intro a b _ _ hab hba
  exact absurd hba hab.asymm

/-- The name and the kind of a node. -/
def Node.label (node : Node) : String × NodeKind := (node.name, node.kind)

theorem Node.isFolder_eq_true_iff {node : Node} : node.isFolder = true ↔ node.kind = .folder :=
  beq_iff_eq

theorem Node.isFolder_eq_false_iff {node : Node} : node.isFolder = false ↔ node.kind = .file := by
  rw [isFolder]
  cases node.kind <;> decide

theorem Node.isFolder_eq_iff {node other : Node} :
    node.isFolder = other.isFolder ↔ node.kind = other.kind := by
  rw [isFolder, isFolder]
  cases node.kind <;> cases other.kind <;> decide

namespace FileSystem

theorem listedBefore_total (a b : String × Node) : (listedBefore a b || listedBefore b a) = true := by
  rw [Bool.or_eq_true, listedBefore, listedBefore]
  by_cases hkind : a.2.isFolder = b.2.isFolder
  · rw [if_pos hkind, if_pos hkind.symm, decide_eq_true_eq, decide_eq_true_eq]
    exact String.le_total _ _
  · rw [if_neg hkind, if_neg (Ne.symm hkind)]
    cases ha : a.2.isFolder <;> cases hb : b.2.isFolder <;> simp_all

theorem listedBefore_trans (a b c : String × Node) (hab : listedBefore a b = true)
    (hbc : listedBefore b c = true) : listedBefore a c = true := by
  unfold listedBefore at *
  cases ha : a.2.isFolder <;> cases hb : b.2.isFolder <;> cases hc : c.2.isFolder <;>
    simp_all
  all_goals exact String.le_trans hab hbc

/-- Between nodes of different names the order of listings is strict. -/
theorem standsBefore_of_listedBefore {a b : String × Node} (h : listedBefore a b = true)
    (hne : a.2.name ≠ b.2.name) : StandsBefore a.2.label b.2.label := by
  unfold listedBefore at h
  split_ifs at h with hkind
  · refine .inr ⟨Node.isFolder_eq_iff.mp hkind, Text.lt_iff_bytes_lt.mp ?_⟩
    by_contra hnot
    exact hne (String.le_antisymm (of_decide_eq_true h) (String.not_lt.mp hnot))
  · refine .inl ⟨Node.isFolder_eq_true_iff.mp h, Node.isFolder_eq_false_iff.mp ?_⟩
    rw [h] at hkind
    exact Bool.eq_false_iff.mpr (Ne.symm hkind)

variable {fs : FileSystem}

/-! ## The children of a folder in the order of listings -/

theorem Listed.mem_sortedChildren (h : fs.Listed) {names : List String} (hn : AllNames names)
    {entry : String × Node} :
    entry ∈ fs.sortedChildren (ofNames names)
      ↔ isName entry.2.name = true ∧ entry.1 = Path.child (ofNames names) entry.2.name ∧
          fs.lookup entry.1 = some entry.2 := by
  obtain ⟨path, node⟩ := entry
  rw [sortedChildren, List.mem_mergeSort, h.mem_children hn]
  constructor
  · rintro ⟨name, hname, rfl, hlookup⟩
    have heq := h.treeClosed.name_eq _ _ hlookup
    rw [Path.fileName_ofNames names hname] at heq
    show isName node.name = true ∧ _ = Path.child (ofNames names) node.name ∧ _
    rw [heq, Path.child_ofNames hn]
    exact ⟨hname, rfl, hlookup⟩
  · rintro ⟨hname, hpath, hlookup⟩
    exact ⟨node.name, hname, hpath.trans (Path.child_ofNames hn _), hlookup⟩

/-- A node at a path with one more name is listed under this name. -/
theorem Listed.mem_sortedChildren_of_lookup (h : fs.Listed) {names : List String}
    (hn : AllNames names) {name : String} (hname : isName name = true) {node : Node}
    (hnode : fs.lookup (Path.child (ofNames names) name) = some node) :
    node.name = name ∧
      (Path.child (ofNames names) name, node) ∈ fs.sortedChildren (ofNames names) := by
  have heq := h.treeClosed.name_eq _ _ hnode
  rw [Path.child_ofNames hn, Path.fileName_ofNames names hname] at heq
  exact ⟨heq, (h.mem_sortedChildren hn).mpr ⟨by rwa [heq], by rw [heq], hnode⟩⟩

/-- No name comes twice among the children of a folder. -/
theorem Listed.nodup_sortedNames (h : fs.Listed) {names : List String} (hn : AllNames names) :
    ((fs.sortedChildren (ofNames names)).map fun child => child.2.name).Nodup := by
  have hpaths : ((fs.sortedChildren (ofNames names)).map Prod.fst).Nodup :=
    ((List.mergeSort_perm _ listedBefore).map Prod.fst).nodup_iff.mpr (h.nodup_childPaths hn)
  rw [List.nodup_iff_pairwise_ne, List.pairwise_map] at hpaths ⊢
  refine hpaths.imp_of_mem ?_
  intro a b ha hb hne hname
  -- different paths in one folder have different names
  refine hne ?_
  rw [((h.mem_sortedChildren hn).mp ha).2.1, ((h.mem_sortedChildren hn).mp hb).2.1, hname]

/-- **The children of a folder are listed strictly in order.** -/
theorem Listed.pairwise_sortedChildren (h : fs.Listed) {names : List String}
    (hn : AllNames names) :
    (fs.sortedChildren (ofNames names)).Pairwise fun a b => StandsBefore a.2.label b.2.label := by
  have hsorted : (fs.sortedChildren (ofNames names)).Pairwise fun a b => listedBefore a b = true :=
    List.pairwise_mergeSort listedBefore_trans listedBefore_total _
  have hnames := h.nodup_sortedNames hn
  rw [List.nodup_iff_pairwise_ne, List.pairwise_map] at hnames
  exact (hsorted.and hnames).imp fun hab => standsBefore_of_listedBefore hab.1 hab.2

end FileSystem

/-! ## What a row shows -/

/-- The name and the kind that a row shows. -/
def Entry.label (row : Entry) : String × NodeKind := (row.name, row.kind)

/-- A row shows what is known of a node, under whatever name. -/
structure Entry.Shows (row : Entry) (node : Node) : Prop where
  kind : row.kind = node.kind
  size : row.size = node.size
  modified : row.modified = node.modified

namespace FileSystem

variable {fs : FileSystem}

theorem entry_shows (fs : FileSystem) (options : ListOptions) (name : String) (node : Node) :
    (fs.entry options name node).Shows node := ⟨rfl, rfl, rfl⟩

/-! ## What is listed of each path -/

/-- The path that is listed; without input it is the working directory. -/
def listedPath (fs : FileSystem) (input : Option String) : String :=
  (input.map fs.resolve).getD fs.cwd

/-- The rows that stand before those of the children. -/
def rowsAbove (fs : FileSystem) (options : ListOptions) (dir : String) (node : Node) : List Entry :=
  if options.all then
    fs.entry options "." node :: ((fs.lookup (Path.parent dir)).map (fs.entry options "..")).toList
  else []

/-- The rows of the children of a folder. -/
def childRows (fs : FileSystem) (options : ListOptions) (dir : String) : List Entry :=
  (fs.sortedChildren dir).map fun child => fs.entry options child.2.name child.2

theorem list_eq (fs : FileSystem) (input : Option String) (options : ListOptions) :
    fs.list input options = (fs.require (fs.listedPath input)).map fun node =>
      if node.isFolder then fs.rowsAbove options (fs.listedPath input) node ++
        fs.childRows options (fs.listedPath input)
      else [fs.entry options (Path.fileName (fs.listedPath input)) node] := by
  rw [list]
  show (fs.require (fs.listedPath input) >>= _) = _
  cases fs.require (fs.listedPath input) with
  | error e => rfl
  | ok node => exact (apply_ite Except.ok _ _ _).symm

theorem list_of_none {input : Option String} (hnone : fs.lookup (fs.listedPath input) = none)
    (options : ListOptions) : fs.list input options = .error (.notFound (fs.listedPath input)) := by
  rw [list_eq, require, hnone]
  rfl

theorem list_of_folder {input : Option String} {node : Node}
    (hnode : fs.lookup (fs.listedPath input) = some node) (hfolder : node.isFolder = true)
    (options : ListOptions) :
    fs.list input options = .ok (fs.rowsAbove options (fs.listedPath input) node ++
      fs.childRows options (fs.listedPath input)) := by
  rw [list_eq, require, hnode]
  exact congrArg Except.ok (if_pos hfolder)

theorem list_of_file {input : Option String} {node : Node}
    (hnode : fs.lookup (fs.listedPath input) = some node) (hfile : node.isFolder = false)
    (options : ListOptions) :
    fs.list input options
      = .ok [fs.entry options (Path.fileName (fs.listedPath input)) node] := by
  rw [list_eq, require, hnode]
  exact congrArg Except.ok (if_neg (Bool.eq_false_iff.mp hfile))

/-! ## A listing is complete -/

/-- **Rows list a folder**: there is one row for each existing path whose parent the folder is, with
what is known of its node. Folders stand before files, the names of each group ascend strictly in
the order of their bytes, and none comes twice. The root is in no folder. -/
structure IsListing (fs : FileSystem) (dir : String) (rows : List Entry) : Prop where
  mem_iff : ∀ path, (fs.lookup path).isSome = true ∧ path ≠ Path.root ∧ Path.parent path = dir
    ↔ ∃ row ∈ rows, path = Path.child dir row.name
  ordered : rows.Pairwise fun a b => StandsBefore a.label b.label
  nodup : (rows.map Entry.name).Nodup
  shows : ∀ row ∈ rows, ∃ node, fs.lookup (Path.child dir row.name) = some node ∧ row.Shows node

/-- The rows of the children list a folder. -/
theorem Listed.isListing (h : fs.Listed) {names : List String} (hn : AllNames names)
    (options : ListOptions) :
    fs.IsListing (ofNames names) (fs.childRows options (ofNames names)) := by
  refine ⟨fun path => ⟨?_, ?_⟩, ?_, ?_, ?_⟩
  · -- a path in the folder goes on from it with one name
    rintro ⟨hs, hne, hparent⟩
    obtain ⟨node, hnode⟩ := Option.isSome_iff_exists.mp hs
    obtain ⟨folder, name, ⟨above, ha, rfl⟩, hname, rfl⟩ :=
      (h.treeClosed.canonical _ _ hnode).eq_root_or_child.resolve_left hne
    rw [(Path.isCanonical_ofNames ha).parent_child hname] at hparent
    rw [hparent] at hnode ⊢
    obtain ⟨heq, hmem⟩ := h.mem_sortedChildren_of_lookup hn hname hnode
    exact ⟨_, List.mem_map_of_mem hmem, congrArg _ heq.symm⟩
  · rintro ⟨_, hrow, rfl⟩
    obtain ⟨child, hchild, rfl⟩ := List.mem_map.mp hrow
    obtain ⟨hname, hpath, hlookup⟩ := (h.mem_sortedChildren hn).mp hchild
    have hparent := (Path.isCanonical_ofNames hn).parent_child hname
    rw [hpath] at hlookup
    refine ⟨by rw [FileSystem.entry, hlookup]; rfl, ?_, hparent⟩
    show Path.child (ofNames names) child.2.name ≠ Path.root
    rw [Path.child_ofNames hn]
    exact Path.ofNames_ne_root (Path.allNames_concat.mpr ⟨hn, hname⟩) (by simp)
  · exact List.pairwise_map.mpr (h.pairwise_sortedChildren hn)
  · rw [childRows, List.map_map]
    exact h.nodup_sortedNames hn
  · intro row hrow
    obtain ⟨child, hchild, rfl⟩ := List.mem_map.mp hrow
    obtain ⟨-, hpath, hlookup⟩ := (h.mem_sortedChildren hn).mp hchild
    rw [hpath] at hlookup
    exact ⟨child.2, hlookup, entry_shows _ _ _ _⟩

/-- The parent of a folder can always be shown; that of the root is the root. -/
theorem Listed.hasFolder_parent (h : fs.Listed) {path : String} (hfolder : fs.HasFolder path) :
    fs.HasFolder (Path.parent path) := by
  by_cases hroot : path = Path.root
  · subst hroot
    exact hfolder
  · obtain ⟨node, hnode, -⟩ := hfolder
    exact h.treeClosed.parent _ _ hnode hroot

/-- **A listing shows all that is in a folder, once and in order.** With and without lines in long
form, and whatever is done with sizes there, a listing of a folder has just the rows that list it
(`IsListing`). With `all` the same rows are preceded by two, `.` with what is known of the folder
and `..` with what is known of its parent, also for the root. A listing of a file has one row for
this file. -/
theorem list_shows_children (h : fs.Reachable) {input : Option String} {node : Node}
    (hnode : fs.lookup (fs.listedPath input) = some node) (long human : Bool) :
    (node.isFolder = true → ∃ here above parent rows,
      fs.list input { all := false, long, human } = .ok rows ∧
      fs.list input { all := true, long, human } = .ok (here :: above :: rows) ∧
      fs.IsListing (fs.listedPath input) rows ∧
      here.name = "." ∧ here.Shows node ∧
      fs.lookup (Path.parent (fs.listedPath input)) = some parent ∧
      above.name = ".." ∧ above.Shows parent) ∧
    (node.isFolder = false → ∀ all, ∃ row, fs.list input { all, long, human } = .ok [row] ∧
      row.name = Path.fileName (fs.listedPath input) ∧ row.Shows node) := by
  have hlisted := h.listed
  obtain ⟨names, hn, hpath⟩ := hlisted.treeClosed.canonical _ _ hnode
  constructor
  · intro hfolder
    obtain ⟨parent, hparent, -⟩ := hlisted.hasFolder_parent ⟨node, hnode, hfolder⟩
    -- what is asked for beside `all` is the same in both listings
    have hrows : ∀ all, fs.childRows { all, long, human } (fs.listedPath input)
        = fs.childRows { all := false, long, human } (fs.listedPath input) := fun _ => rfl
    have hall := list_of_folder hnode hfolder { all := true, long, human }
    rw [hrows, rowsAbove, if_pos rfl, hparent] at hall
    have hisListing := hlisted.isListing hn { all := false, long, human }
    rw [← hpath] at hisListing
    exact ⟨_, _, parent, _, list_of_folder hnode hfolder _, hall, hisListing, rfl,
      entry_shows _ _ _ _, hparent, rfl, entry_shows _ _ _ _⟩
  · intro hfile all
    exact ⟨_, list_of_file hnode hfile _, rfl, entry_shows _ _ _ _⟩

/-- The root over a base with a folder and a file, after another folder and a file were made. -/
theorem list_shows_children_root :
    let base := (Base.none.addRecord Path.root
      (.folder "" [.file "log" "", .folder "home" [.file "note" ""]])).1
    let made := (({ base } : FileSystem).perform (.makeFolder "a" false)).2
    let state := (made.perform (.touch "b")).2
    state.Reachable ∧ ∃ node here above parent rows,
      state.lookup (state.listedPath none) = some node ∧ node.isFolder = true ∧
      state.list none { all := true } = .ok (here :: above :: rows) ∧
      state.IsListing "/" rows ∧ (∃ row ∈ rows, "/home" = Path.child "/" row.name) ∧
      here.Shows node ∧ state.lookup "/" = some parent ∧ above.Shows parent := by
  intro base made state
  have hrecord : FileSystem.ofRecord
      (.folder "" [.file "log" "", .folder "home" [.file "note" ""]]) = .ok { base } := rfl
  have hstate : state.Reachable := ((Reachable.start hrecord "guest" 0 []).step _).step _
  have hroot : state.listedPath none = "/" := by decide +kernel
  obtain ⟨node, hnode, hfolder⟩ := hstate.listed.treeClosed.root
  have hlisted : state.lookup (state.listedPath none) = some node := by rw [hroot]; exact hnode
  obtain ⟨here, above, parent, rows, -, hall, hrows, -, hhere, hparent, -, habove⟩ :=
    (list_shows_children hstate hlisted false false).1 hfolder
  rw [hroot] at hrows hparent
  have hhome : ∃ row ∈ rows, "/home" = Path.child "/" row.name :=
    (hrows.mem_iff "/home").mp ⟨by decide +kernel, by decide, by decide +kernel⟩
  exact ⟨hstate, node, here, above, parent, rows, hlisted, hfolder, hall, hrows, hhome, hhere,
    hparent, habove⟩

end FileSystem

end PocketShell
