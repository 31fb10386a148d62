import PocketShell.FileSystem.Listing
import PocketShell.FileSystem.Traversal
import PocketShell.Proofs.FileSystem.MakeFolder
import PocketShell.Proofs.FileSystem.Persistence
import PocketShell.Proofs.Text.Line

set_option autoImplicit false

/-! # Files whose paths are texts of one line

If no path that exists holds a line feed, and neither does any directory gone through nor the owner
(`FileSystem.OnLines`), then nothing that is read off the files holds one: no path, no name, no line
of a listing and no row of a drawing. An operation keeps this unless it makes a node whose path is
typed with a line feed. Going to a directory keeps it whatever is typed, because the directory
exists.
-/

namespace PocketShell

open PocketShell.Text (IsLine)

/-- The entry of a listing has no other texts than lines. -/
structure Entry.OnLines (entry : Entry) : Prop where
  name : IsLine entry.name
  long : ∀ long, entry.long = some long → IsLine long

namespace FileSystem

/-- **All paths of the files are texts of one line**, and so is the owner. -/
structure OnLines (fs : FileSystem) : Prop where
  mirrors : ∃ plain, Mirrors fs plain
  path : ∀ {path : String} {node : Node}, fs.lookup path = some node → IsLine path
  directory : ∀ dir ∈ fs.directories, IsLine dir
  owner : IsLine fs.owner

variable {fs : FileSystem}

namespace OnLines

theorem treeClosed (h : fs.OnLines) : TreeClosed fs.lookup := by
  obtain ⟨plain, hmirrors⟩ := h.mirrors
  exact hmirrors.shows.treeClosed

theorem wellFormed (h : fs.OnLines) : fs.WellFormed := by
  obtain ⟨plain, hmirrors⟩ := h.mirrors
  exact hmirrors.shows.wellFormed

theorem cwd (h : fs.OnLines) : IsLine fs.cwd :=
  h.directory fs.cwd (by simp [directories])

/-- A node has the last name of its path. -/
theorem name (h : fs.OnLines) {path : String} {node : Node} (hnode : fs.lookup path = some node) :
    IsLine node.name := by
  rw [h.treeClosed.name_eq path node hnode]
  exact (h.path hnode).of_subset (Path.toList_fileName_subset path)

theorem of_mem_children (h : fs.OnLines) {dir : String} {entry : String × Node}
    (hmem : entry ∈ fs.children dir) : IsLine entry.1 ∧ IsLine entry.2.name := by
  have hnode := h.wellFormed.lookup_of_mem_children hmem
  exact ⟨h.path hnode, h.name hnode⟩

theorem resolve (h : fs.OnLines) {input : String} (hinput : IsLine input) :
    IsLine (fs.resolve input) := by
  intro hmem
  rcases List.mem_cons.mp (Path.toList_resolve_subset fs.cwd input hmem) with heq | hmem
  · exact absurd heq (by decide)
  · rcases List.mem_append.mp hmem with hmem | hmem
    · exact h.cwd hmem
    · exact hinput hmem

end OnLines

theorem isLine_of_mem_way {path q : String} (hp : Path.IsCanonical path) (hpath : IsLine path)
    (hq : q ∈ Path.way path) : IsLine q := by
  intro hmem
  rcases List.mem_cons.mp (Path.toList_subset_of_mem_way hp hq hmem) with heq | hmem
  · exact absurd heq (by decide)
  · exact hpath hmem

/-! ## Operations -/

/-- Operations that leave the owner and the directories keep the property if all paths that they
make are texts of one line. -/
theorem OnLines.of_onlyWrites (h : fs.OnLines) {later : FileSystem} (hwrites : fs.OnlyWrites later)
    (hmirrors : ∃ plain, Mirrors later plain)
    (hnew : ∀ path, later.lookup path ≠ fs.lookup path → IsLine path) : later.OnLines := by
  obtain ⟨overlay, clock, readings, rfl⟩ := hwrites
  refine ⟨hmirrors, fun {path node} hnode => ?_, h.directory, h.owner⟩
  by_cases hsame : lookup { fs with overlay, clock, readings } path = fs.lookup path
  · rw [hsame] at hnode
    exact h.path hnode
  · exact hnew path hsame

theorem OnLines.makeFolder (h : fs.OnLines) {input : String} (hinput : IsLine input)
    (parents : Bool) : (fs.makeFolder input parents).2.OnLines := by
  have hp : Path.IsCanonical (fs.resolve input) := Path.isCanonical_resolve fs.cwd input
  obtain ⟨plain, hmirrors⟩ := h.mirrors
  have hafter := (hmirrors.perform (.makeFolder input parents)).mirrors
  refine h.of_onlyWrites (fs.onlyWrites_makeFolder input parents) ⟨_, hafter⟩ fun path hpath => ?_
  -- a path that has changed is one of the way to the folder
  rcases h.wellFormed.makeFolder_cases h.treeClosed input parents with ⟨e, heq⟩ | ⟨heq, -, -⟩
  · rw [heq] at hpath
    exact absurd rfl hpath
  · rw [heq] at hpath
    have hadded := h.wellFormed.foldersAdded_missing hp
    by_cases hmem : path ∈ fs.missing (fs.resolve input)
    · exact isLine_of_mem_way hp (h.resolve hinput) (List.mem_filter.mp hmem).1
    · exact absurd (hadded.lookup_other path hmem) hpath

theorem OnLines.touch (h : fs.OnLines) {input : String} (hinput : IsLine input) :
    (fs.touch input).2.OnLines := by
  obtain ⟨plain, hmirrors⟩ := h.mirrors
  have hafter := (hmirrors.perform (.touch input)).mirrors
  refine h.of_onlyWrites (fs.onlyWrites_touch input) ⟨_, hafter⟩ fun path hpath => ?_
  by_cases heq : path = fs.resolve input
  · rw [heq]
    exact h.resolve hinput
  · exact absurd (h.wellFormed.lookup_touch input heq) hpath

/-- A directory that is gone to exists, or is one that was left. -/
theorem OnLines.changeDirectory (h : fs.OnLines) (input : String) :
    (fs.changeDirectory input).2.OnLines := by
  obtain ⟨plain, hmirrors⟩ := h.mirrors
  have hafter := (hmirrors.perform (.changeDirectory input)).mirrors
  have hlookup : ∀ path, (fs.changeDirectory input).2.lookup path = fs.lookup path := by
    intro path
    simp only [FileSystem.changeDirectory]
    split
    · split <;> rfl
    · split <;> rfl
  have howner : (fs.changeDirectory input).2.owner = fs.owner := by
    simp only [FileSystem.changeDirectory]
    split
    · split <;> rfl
    · split <;> rfl
  refine ⟨⟨_, hafter⟩, fun {path node} hnode => h.path ((hlookup path).symm.trans hnode),
    fun dir hdir => ?_, by rw [howner]; exact h.owner⟩
  rw [directories_changeDirectory] at hdir
  rcases DirectoryStack.mem_after hdir with hdir | ⟨typed, heq, hback, hanswer⟩
  · exact h.directory dir hdir
  · obtain rfl := FileOperation.changeDirectory.inj heq
    obtain ⟨node, hnode, -⟩ := hasFolder_of_changeDirectory hback (FileAnswer.path.inj hanswer)
    exact h.path hnode

/-! ## What is read off the files -/

theorem lookup_of_require {path : String} {node : Node} (h : fs.require path = .ok node) :
    fs.lookup path = some node := by
  rw [require] at h
  split at h
  · next found hfound => rw [hfound, Except.ok.inj h]
  · cases h

theorem OnLines.longLine (h : fs.OnLines) {name : String} (hname : IsLine name) (node : Node)
    (human : Bool) : IsLine (fs.longLine name node human) := by
  have hkind : IsLine node.kind.permissions := by
    cases node.kind <;> decide
  cases human with
  | false => simp +decide [FileSystem.longLine, hkind, h.owner, hname, Calendar.isLine_listingForm]
  | true =>
      simp +decide [FileSystem.longLine, hkind, h.owner, hname, Calendar.isLine_listingForm,
        ByteSize.isLine_humanSize]

theorem OnLines.entry (h : fs.OnLines) (options : ListOptions) {name : String}
    (hname : IsLine name) (node : Node) : (fs.entry options name node).OnLines := by
  refine ⟨hname, fun long hlong => ?_⟩
  rw [FileSystem.entry] at hlong
  dsimp only at hlong
  split_ifs at hlong
  obtain rfl := Option.some.inj hlong
  exact h.longLine hname node options.human

theorem OnLines.list (h : fs.OnLines) {input : Option String} {options : ListOptions}
    {entries : List Entry} (hlist : fs.list input options = .ok entries) :
    ∀ entry ∈ entries, entry.OnLines := by
  have hdot : IsLine "." := by decide
  have hdots : IsLine ".." := by decide
  obtain ⟨node, hnode, hlist⟩ := exists_of_bind_ok hlist
  by_cases hfolder : node.isFolder = true
  · -- the two entries for the folder and its parent, and those of the children
    rw [if_pos hfolder] at hlist
    obtain rfl := Except.ok.inj hlist
    intro entry hentry
    rcases List.mem_append.mp hentry with hentry | hentry
    · by_cases hall : options.all = true
      · rw [if_pos hall] at hentry
        rcases List.mem_cons.mp hentry with rfl | hentry
        · exact h.entry options hdot node
        · obtain ⟨above, -, rfl⟩ := Option.map_eq_some_iff.mp (Option.mem_toList.mp hentry)
          exact h.entry options hdots above
      · rw [if_neg hall] at hentry
        cases hentry
    · obtain ⟨child, hchild, rfl⟩ := List.mem_map.mp hentry
      exact h.entry options (h.of_mem_children (List.mem_mergeSort.mp hchild)).2 child.2
  · rw [if_neg hfolder] at hlist
    obtain rfl := Except.ok.inj hlist
    intro entry hentry
    rw [List.mem_singleton.mp hentry]
    have hpath := h.path (lookup_of_require hnode)
    exact h.entry options (hpath.of_subset (Path.toList_fileName_subset _)) node

theorem OnLines.report (h : fs.OnLines) {input : String} {report : NodeReport}
    (hreport : fs.report input = .ok report) : IsLine report.path := by
  obtain ⟨node, hnode, hreport⟩ := exists_of_bind_ok hreport
  obtain rfl := Except.ok.inj hreport
  exact h.path (lookup_of_require hnode)

theorem OnLines.of_mem_descendants (h : fs.OnLines) {depth : Nat} {dir : String}
    {found : String × Node} (hmem : found ∈ fs.descendants depth dir) : IsLine found.1 := by
  induction depth generalizing dir with
  | zero => cases hmem
  | succ depth ih =>
      obtain ⟨child, hchild, hmem⟩ := List.mem_flatMap.mp hmem
      rcases List.mem_cons.mp hmem with rfl | hmem
      · exact (h.of_mem_children hchild).1
      · split_ifs at hmem
        · exact ih hmem
        · cases hmem

theorem OnLines.find (h : fs.OnLines) {input : String} {search : Search} {paths : List String}
    (hfind : fs.find input search = .ok paths) : ∀ path ∈ paths, IsLine path := by
  obtain ⟨node, -, hfind⟩ := exists_of_bind_ok hfind
  split_ifs at hfind
  · obtain rfl := Except.ok.inj hfind
    intro path hpath
    obtain ⟨found, hfound, rfl⟩ := List.mem_map.mp hpath
    exact h.of_mem_descendants (List.mem_filter.mp hfound).1
  · obtain rfl := Except.ok.inj hfind
    exact List.forall_mem_nil _

/-- Siblings are drawn on lines of their own if what is below them is. -/
theorem isLine_drawSiblings {rowsBelow : String → String → List DrawnRow} {indent : String}
    (hbelow : ∀ path deeper, IsLine deeper → ∀ row ∈ rowsBelow path deeper, IsLine row.text)
    (hindent : IsLine indent) {siblings : List (String × Node)}
    (hnames : ∀ entry ∈ siblings, IsLine entry.2.name) :
    ∀ row ∈ drawSiblings rowsBelow indent siblings, IsLine row.text := by
  induction siblings with
  | nil => exact List.forall_mem_nil _
  | cons entry rest ih =>
      obtain ⟨path, node⟩ := entry
      obtain ⟨hname, hrest⟩ := List.forall_mem_cons.mp hnames
      have hbranch : IsLine (if rest.isEmpty then "└── " else "├── ") := by
        split_ifs <;> decide
      have hslash : IsLine (if node.isFolder then "/" else "") := by
        split_ifs <;> decide
      have hdeeper : IsLine (if rest.isEmpty then "    " else "│   ") := by
        split_ifs <;> decide
      intro row hrow
      rcases List.mem_cons.mp hrow with rfl | hrow
      · simp only [Text.isLine_append]
        exact ⟨⟨⟨hindent, hbranch⟩, hname⟩, hslash⟩
      · rcases List.mem_append.mp hrow with hrow | hrow
        · by_cases hfolder : node.isFolder = true
          · rw [if_pos hfolder] at hrow
            exact hbelow path _ ((Text.isLine_append _ _).mpr ⟨hindent, hdeeper⟩) row hrow
          · rw [if_neg hfolder] at hrow
            cases hrow
        · exact ih hrest row hrow

theorem OnLines.drawRows (h : fs.OnLines) (depth : Nat) (dir indent : String)
    (hindent : IsLine indent) : ∀ row ∈ fs.drawRows depth dir indent, IsLine row.text := by
  induction depth generalizing dir indent with
  | zero => exact List.forall_mem_nil _
  | succ depth ih =>
      refine isLine_drawSiblings ih hindent fun entry hentry => ?_
      exact (h.of_mem_children (List.mem_mergeSort.mp hentry)).2

theorem OnLines.draw (h : fs.OnLines) {input : String} {depth : Nat} {drawing : Drawing}
    (hdraw : fs.draw input depth = .ok drawing) : ∀ line ∈ drawing.lines, IsLine line := by
  obtain ⟨node, -, hdraw⟩ := exists_of_bind_ok hdraw
  obtain rfl := Except.ok.inj hdraw
  intro line hline
  obtain ⟨row, hrow, rfl⟩ := List.mem_map.mp hline
  exact h.drawRows depth _ "" (by decide) row hrow

end FileSystem

end PocketShell
