import PocketShell.Proofs.FileSystem.Drawing
import PocketShell.Proofs.FileSystem.Searching

set_option autoImplicit false

/-! # Drawings and searches go through the same nodes

A drawing goes down a given number of levels and takes the children of a folder in the order of
listings; a search goes down as far as there is something and takes them in stored order. The rows
of a drawing are those of the nodes that such a walk finds (`drawnNodes`), row by row
(`Listed.forall₂_drawRows`), and up to their order these are the nodes of the search that are not
too deep (`Listed.drawnNodes_perm`). So the rows can be counted by what the search finds
(`draw_agrees_with_find`).

The nodes can be counted while they are drawn: each adds its line and is counted before what is
below it is drawn. This pass (`reportRows`) comes to the lines and the counts of the rows
(`reportRows_eq`).
-/

namespace PocketShell

open PocketShell.Path (AllNames ofNames isName)

/-- How many levels a path is below the root. -/
def Path.level (path : String) : Nat := (FileSystem.segmentsOf path).length

theorem Path.level_ofNames {names : List String} (hn : AllNames names) :
    Path.level (ofNames names) = names.length := by
  rw [level, segmentsOf_ofNames hn]

namespace FileSystem

variable {fs : FileSystem}

/-! ## The nodes of a drawing -/

/-- The nodes at most `depth` levels below the folder `dir`, in the order in which they are
drawn. -/
def drawnNodes (fs : FileSystem) : Nat → String → List (String × Node)
  | 0, _ => []
  | depth + 1, dir =>
      (fs.sortedChildren dir).flatMap fun child =>
        child :: if child.2.isFolder then fs.drawnNodes depth child.1 else []

/-- **A drawing has the nodes of a walk** in another order. -/
theorem drawnNodes_perm_descendants (fs : FileSystem) (depth : Nat) (dir : String) :
    (fs.drawnNodes depth dir).Perm (fs.descendants depth dir) := by
  induction depth generalizing dir with
  | zero => exact List.Perm.refl []
  | succ depth ih =>
      refine (List.mergeSort_perm _ _).flatMap fun child _ => List.Perm.cons child ?_
      by_cases hfolder : child.2.isFolder = true
      · rw [if_pos hfolder, if_pos hfolder]
        exact ih child.1
      · rw [if_neg hfolder, if_neg hfolder]

/-- **A row draws the node at a path**: it is of the kind of the node, and it has the name after
marks that tell how deep the path is, a folder's name with a `/`. -/
structure Draws (fs : FileSystem) (start : String) (row : DrawnRow) (path : String) : Prop where
  kind_eq : (fs.lookup path).map Node.kind = some row.kind
  text_eq : ∃ marks : String, marks.length = 4 * (Path.level path - Path.level start) ∧
    row.text = marks ++ Path.fileName path ++ if row.kind = .folder then "/" else ""

/-- Siblings are drawn row by row if what is below them is. -/
theorem forall₂_drawSiblings {Shows : DrawnRow → String × Node → Prop}
    {rowsBelow : String → String → List DrawnRow} {nodesBelow : String → List (String × Node)}
    {indent : String} {siblings : List (String × Node)}
    (hrow : ∀ child ∈ siblings, ∀ isLast, Shows
      { text := indent ++ Outline.branch isLast ++ child.2.name ++
          (if child.2.isFolder then "/" else "")
        kind := child.2.kind } child)
    (hbelow : ∀ child ∈ siblings, ∀ isLast, List.Forall₂ Shows
      (rowsBelow child.1 (indent ++ Outline.margin isLast)) (nodesBelow child.1)) :
    List.Forall₂ Shows (drawSiblings rowsBelow indent siblings)
      (siblings.flatMap fun child =>
        child :: if child.2.isFolder then nodesBelow child.1 else []) := by
  induction siblings with
  | nil => exact .nil
  | cons child rest ih =>
      obtain ⟨hfirst, hrows⟩ := List.forall_mem_cons.mp hrow
      obtain ⟨hunder, hrest⟩ := List.forall_mem_cons.mp hbelow
      refine .cons (hfirst rest.isEmpty) (List.rel_append ?_ (ih hrows hrest))
      by_cases hfolder : child.2.isFolder = true
      · rw [if_pos hfolder, if_pos hfolder]
        exact hunder rest.isEmpty
      · rw [if_neg hfolder, if_neg hfolder]
        exact .nil

theorem length_branch (isLast : Bool) : (Outline.branch isLast).length = 4 := by
  cases isLast <;> rfl

theorem length_margin (isLast : Bool) : (Outline.margin isLast).length = 4 := by
  cases isLast <;> rfl

/-- **Each row draws its node**: the rows below a folder are those of the nodes below it, one after
the other. -/
theorem Listed.forall₂_drawRows (h : fs.Listed) {start names : List String}
    (hs : AllNames start) (hn : AllNames names) (hle : start.length ≤ names.length) (depth : Nat)
    {indent : String} (hindent : indent.length = 4 * (names.length - start.length)) :
    List.Forall₂ (fun row entry => fs.Draws (ofNames start) row entry.1)
      (fs.drawRows depth (ofNames names) indent) (fs.drawnNodes depth (ofNames names)) := by
  induction depth generalizing names indent with
  | zero => exact .nil
  | succ depth ih =>
      refine forall₂_drawSiblings (fun child hmem isLast => ?_) fun child hmem isLast => ?_
      · obtain ⟨hname, hpath, hlookup⟩ := (h.mem_sortedChildren hn).mp hmem
        refine ⟨by rw [hlookup]; rfl, indent ++ Outline.branch isLast, ?_, ?_⟩
        · rw [hpath, Path.child_ofNames hn, Path.level_ofNames (Path.allNames_concat.mpr ⟨hn, hname⟩),
            Path.level_ofNames hs, String.length_append, length_branch, hindent, List.length_append,
            List.length_singleton]
          omega
        · rw [hpath, Path.child_ofNames hn, Path.fileName_ofNames names hname]
          simp only [Node.isFolder_eq_true_iff]
      · -- a child is one level deeper, and what is below it one group of marks
        obtain ⟨hname, hpath, -⟩ := (h.mem_sortedChildren hn).mp hmem
        rw [hpath, Path.child_ofNames hn]
        refine ih (Path.allNames_concat.mpr ⟨hn, hname⟩) ?_ ?_
        · rw [List.length_append]
          omega
        · rw [String.length_append, length_margin, hindent, List.length_append,
            List.length_singleton]
          omega

/-- The rows of a drawing draw the paths of its nodes. -/
theorem Listed.forall₂_drawnPaths (h : fs.Listed) {names : List String} (hn : AllNames names)
    (depth : Nat) :
    List.Forall₂ (fs.Draws (ofNames names)) (fs.drawRows depth (ofNames names) "")
      ((fs.drawnNodes depth (ofNames names)).map Prod.fst) := by
  rw [List.forall₂_map_right_iff]
  exact h.forall₂_drawRows hn hn le_rfl depth (by simp)

/-! ## The nodes of a search -/

/-- The paths that are at most `depth` levels deeper than another. -/
def near (start : String) (depth : Nat) (paths : List String) : List String :=
  paths.filter fun path => Path.level path ≤ Path.level start + depth

/-- A walk finds the existing paths with more names, as far as the depth allows. -/
theorem Listed.mem_pathsBelow_iff (h : fs.Listed) {names : List String} {node : Node}
    (hn : AllNames names) (hnode : fs.lookup (ofNames names) = some node) {depth : Nat}
    {path : String} :
    path ∈ fs.pathsBelow depth (ofNames names, node)
      ↔ ∃ more, more ≠ [] ∧ more.length ≤ depth ∧ AllNames more ∧
          path = ofNames (names ++ more) ∧ (fs.lookup path).isSome = true := by
  constructor
  · intro hpath
    obtain ⟨⟨_, found⟩, hfound, rfl⟩ := List.mem_map.mp hpath
    obtain ⟨more, hne, hlen, hmore, heq, hlookup⟩ := (h.mem_nodesBelow hn hnode).mp hfound
    exact ⟨more, hne, hlen, hmore, heq, by rw [hlookup]; rfl⟩
  · rintro ⟨more, hne, hlen, hmore, rfl, hs⟩
    obtain ⟨found, hfound⟩ := Option.isSome_iff_exists.mp hs
    exact List.mem_map.mpr ⟨_, (h.mem_nodesBelow hn hnode).mpr
      ⟨more, hne, hlen, hmore, rfl, hfound⟩, rfl⟩

/-- A walk that is cut off finds what is not too deep. -/
theorem Listed.mem_pathsBelow_iff_near (h : fs.Listed) {names : List String} {node : Node}
    (hn : AllNames names) (hnode : fs.lookup (ofNames names) = some node) (depth : Nat)
    {path : String} :
    path ∈ fs.pathsBelow depth (ofNames names, node)
      ↔ path ∈ near (ofNames names) depth (fs.pathsBelow fs.nodeCount (ofNames names, node)) := by
  rw [near, List.mem_filter, decide_eq_true_eq, h.mem_pathsBelow_iff hn hnode,
    h.mem_pathsBelow_iff hn hnode]
  constructor
  · rintro ⟨more, hne, hlen, hmore, rfl, hs⟩
    refine ⟨⟨more, hne, h.within_nodeCount hn more hmore hs, hmore, rfl, hs⟩, ?_⟩
    rw [Path.level_ofNames (Path.allNames_append.mpr ⟨hn, hmore⟩), Path.level_ofNames hn,
      List.length_append]
    omega
  · rintro ⟨⟨more, hne, -, hmore, rfl, hs⟩, hlevel⟩
    rw [Path.level_ofNames (Path.allNames_append.mpr ⟨hn, hmore⟩), Path.level_ofNames hn,
      List.length_append] at hlevel
    exact ⟨more, hne, by omega, hmore, rfl, hs⟩

/-- **A drawing has the nodes of a search that are not too deep.** -/
theorem Listed.drawnNodes_perm (h : fs.Listed) {names : List String} {node : Node}
    (hn : AllNames names) (hnode : fs.lookup (ofNames names) = some node)
    (hfolder : node.isFolder = true) (depth : Nat) :
    ((fs.drawnNodes depth (ofNames names)).map Prod.fst).Perm
      (near (ofNames names) depth (fs.pathsBelow fs.nodeCount (ofNames names, node))) := by
  have hbelow : (fs.descendants depth (ofNames names)).map Prod.fst
      = fs.pathsBelow depth (ofNames names, node) := by
    rw [pathsBelow, nodesBelow, if_pos hfolder]
  refine ((fs.drawnNodes_perm_descendants depth _).map Prod.fst).trans ?_
  rw [hbelow]
  exact (List.perm_ext_iff_of_nodup (h.nodup_pathsBelow hn)
    ((h.nodup_pathsBelow hn).filter _)).mpr fun path => h.mem_pathsBelow_iff_near hn hnode depth

/-! ## Counting while drawing -/

/-- What a drawing has come to so far: its lines, and how many nodes of each kind it has met. -/
structure Report where
  lines : List String := []
  folders : Nat := 0
  files : Nat := 0
deriving DecidableEq, Repr

namespace Report

/-- The report with more rows at the end, each counted by its kind. -/
def add (report : Report) (rows : List DrawnRow) : Report where
  lines := report.lines ++ rows.map DrawnRow.text
  folders := report.folders + rows.countP (·.kind == .folder)
  files := report.files + rows.countP (·.kind == .file)

theorem add_nil (report : Report) : report.add [] = report := by
  rw [add, List.map_nil, List.append_nil]
  rfl

theorem add_append (report : Report) (first second : List DrawnRow) :
    report.add (first ++ second) = (report.add first).add second := by
  simp only [add, List.map_append, List.countP_append, List.append_assoc, Nat.add_assoc]

theorem add_cons (report : Report) (row : DrawnRow) (rows : List DrawnRow) :
    report.add (row :: rows) = (report.add [row]).add rows := report.add_append [row] rows

/-- Adds siblings, one after the other: the line of a node, then the node itself to those of its
kind, and what is below a folder before its next sibling. -/
def addSiblings (addBelow : String → String → Report → Report) (indent : String) :
    List (String × Node) → Report → Report
  | [], report => report
  | (path, node) :: rest, report =>
      let isLast := rest.isEmpty
      let line := indent ++ Outline.branch isLast ++ node.name ++ if node.isFolder then "/" else ""
      let drawn := { report with lines := report.lines ++ [line] }
      addSiblings addBelow indent rest <|
        if node.isFolder then
          addBelow path (indent ++ Outline.margin isLast)
            { drawn with folders := drawn.folders + 1 }
        else { drawn with files := drawn.files + 1 }

/-- **Siblings add their rows** if what is below them does. -/
theorem addSiblings_eq {addBelow : String → String → Report → Report}
    {rowsBelow : String → String → List DrawnRow}
    (hbelow : ∀ path indent report,
      addBelow path indent report = report.add (rowsBelow path indent))
    (indent : String) (siblings : List (String × Node)) (report : Report) :
    addSiblings addBelow indent siblings report
      = report.add (drawSiblings rowsBelow indent siblings) := by
  induction siblings generalizing report with
  | nil => exact report.add_nil.symm
  | cons child rest ih =>
      obtain ⟨path, node⟩ := child
      rw [addSiblings, drawSiblings, ih, add_cons, add_append]
      refine congrArg (add · _) ?_
      -- the row of the node itself counts it
      cases hfolder : node.isFolder with
      | true =>
          have hkind : node.kind = .folder := Node.isFolder_eq_true_iff.mp hfolder
          simp only [if_true, hbelow, hkind]
          rfl
      | false =>
          have hkind : node.kind = .file := Node.isFolder_eq_false_iff.mp hfolder
          simp only [Bool.false_eq_true, if_false, add_nil, hkind]
          rfl

end Report

/-- Adds to a report what is below the folder `dir`, whose children are at the given level, as far
as `depth` levels below the start. -/
def reportRows (fs : FileSystem) (depth level : Nat) (dir indent : String) (report : Report) :
    Report :=
  if depth < level then report
  else
    Report.addSiblings (fs.reportRows depth (level + 1)) indent (fs.sortedChildren dir) report
termination_by depth + 1 - level

/-- **Counting while drawing adds the rows of the drawing**, their lines and their kinds. -/
theorem reportRows_eq (fs : FileSystem) (depth level : Nat) (dir indent : String)
    (report : Report) :
    fs.reportRows depth level dir indent report
      = report.add (fs.drawRows (depth + 1 - level) dir indent) := by
  -- the induction is on the levels that are left
  induction hleft : depth + 1 - level generalizing level dir indent report with
  | zero =>
      rw [reportRows, if_pos (by omega), drawRows, Report.add_nil]
  | succ left ih =>
      rw [reportRows, if_neg (by omega), drawRows]
      have hbelow : ∀ path indent report, fs.reportRows depth (level + 1) path indent report
          = report.add (fs.drawRows left path indent) := fun path indent report =>
        ih (level + 1) path indent report (by omega)
      exact Report.addSiblings_eq hbelow indent _ report

/-- A report that begins with nothing is that of the drawing. -/
theorem reportRows_start (fs : FileSystem) (depth : Nat) (dir : String) :
    let drawing : Drawing := { rows := fs.drawRows depth dir "" }
    fs.reportRows depth 1 dir "" {}
      = { lines := drawing.lines, folders := drawing.folders, files := drawing.files } := by
  intro drawing
  rw [reportRows_eq, Nat.add_sub_cancel, Report.add, List.nil_append, Nat.zero_add, Nat.zero_add]
  rfl

/-! ## Counting rows -/

/-- Rows are counted by the paths that they draw. -/
theorem countP_of_forall₂_draws {start : String} {rows : List DrawnRow} {paths : List String}
    (h : List.Forall₂ (fs.Draws start) rows paths) (kind : NodeKind) :
    rows.countP (·.kind == kind)
      = paths.countP fun path => (fs.lookup path).any (·.kind == kind) := by
  induction h with
  | nil => rfl
  | @cons row path rows paths hdraws _ ih =>
      obtain ⟨node, hnode, hkind⟩ := Option.map_eq_some_iff.mp hdraws.kind_eq
      rw [List.countP_cons, List.countP_cons, ih, hnode, Option.any_some, hkind]

theorem finds_kind (kind : NodeKind) :
    Search.finds { kind := some kind } = fun node => node.kind == kind := by
  funext node
  show (kind == node.kind && true) = (node.kind == kind)
  rw [Bool.and_true, BEq.comm]

/-- **As many nodes of a kind are drawn** as a search finds that are not too deep. -/
theorem Listed.countP_drawRows (h : fs.Listed) {names : List String} {node : Node}
    (hn : AllNames names) (hnode : fs.lookup (ofNames names) = some node)
    (hfolder : node.isFolder = true) (depth : Nat) (kind : NodeKind) :
    (fs.drawRows depth (ofNames names) "").countP (·.kind == kind)
      = (near (ofNames names) depth (fs.pathsBelow fs.nodeCount (ofNames names, node))).countP
          fun path => (fs.lookup path).any (·.kind == kind) := by
  rw [countP_of_forall₂_draws (h.forall₂_drawnPaths hn depth),
    (h.drawnNodes_perm hn hnode hfolder depth).countP_eq]

/-- A search for one kind finds as many nodes as there are of this kind. -/
theorem Listed.length_found (h : fs.Listed) {names : List String} {node : Node}
    (hn : AllNames names) (hnode : fs.lookup (ofNames names) = some node) (kind : NodeKind) :
    (fs.found { kind := some kind } fs.nodeCount (ofNames names, node)).length
      = (fs.pathsBelow fs.nodeCount (ofNames names, node)).countP
          fun path => (fs.lookup path).any (·.kind == kind) := by
  rw [h.found_eq_filter _ hn hnode, ← List.countP_eq_length_filter]
  simp only [finds_kind]

theorem folders_add_files (drawing : Drawing) :
    drawing.folders + drawing.files = drawing.lines.length := by
  have hkind : ∀ row : DrawnRow, (row.kind == .file) = !(row.kind == .folder) := by
    intro row
    cases row.kind <;> rfl
  rw [Drawing.folders, Drawing.files, Drawing.lines, List.length_map,
    List.length_eq_countP_add_countP (fun row => row.kind == .folder)]
  simp only [hkind, Bool.not_eq_true, Bool.decide_eq_false]

/-- **Drawings and searches agree.** From every folder there is a search for all that is below it,
one for folders and one for files, and a drawing to any depth. The drawing has just one row for each
path of the first search that is at most that deep, with its kind, its name and marks that are as
long as it is deep. All its lines are counted as folders or files, and there are as many of each as
there are among these paths. If no path is deeper the counts are those of the other searches. A pass
that counts each node when it is drawn comes to the same lines and counts. -/
theorem draw_agrees_with_find (h : fs.Reachable) {input : String}
    (hfolder : fs.HasFolder (fs.resolve input)) (depth : Nat) :
    ∃ all folders files drawing paths,
      fs.find input {} = .ok all ∧ fs.find input { kind := some .folder } = .ok folders ∧
      fs.find input { kind := some .file } = .ok files ∧ fs.draw input depth = .ok drawing ∧
      fs.reportRows depth 1 (fs.resolve input) "" {}
        = { lines := drawing.lines, folders := drawing.folders, files := drawing.files } ∧
      paths.Nodup ∧ paths.Perm (near (fs.resolve input) depth all) ∧
      List.Forall₂ (fs.Draws (fs.resolve input)) drawing.rows paths ∧
      drawing.folders + drawing.files = drawing.lines.length ∧
      drawing.folders = (near (fs.resolve input) depth all).countP
        (fun path => (fs.lookup path).any (·.kind == .folder)) ∧
      drawing.files = (near (fs.resolve input) depth all).countP
        (fun path => (fs.lookup path).any (·.kind == .file)) ∧
      ((∀ path ∈ all, Path.level path ≤ Path.level (fs.resolve input) + depth) →
        drawing.folders = folders.length ∧ drawing.files = files.length) := by
  have hlisted := h.listed
  obtain ⟨node, hnode, hf⟩ := hfolder
  obtain ⟨names, hn, hpath⟩ := Path.isCanonical_resolve fs.cwd input
  have hresolve : fs.resolve input = ofNames names := hpath
  have hstart : fs.lookup (ofNames names) = some node := by rwa [← hresolve]
  have hperm := hlisted.drawnNodes_perm hn hstart hf depth
  have hnodup := hperm.nodup_iff.mpr ((hlisted.nodup_pathsBelow hn).filter _)
  have hrows := hlisted.forall₂_drawnPaths hn depth
  have hcount := hlisted.countP_drawRows hn hstart hf depth
  have hfound := hlisted.length_found hn hstart
  rw [← hresolve] at hperm hnodup hrows hcount hfound
  refine ⟨_, _, _, _, _, (find_eq hnode {}).trans (congrArg _ (found_default _ _ _)),
    find_eq hnode _, find_eq hnode _, draw_eq ⟨node, hnode, hf⟩ depth,
    fs.reportRows_start depth _, hnodup, hperm, hrows, folders_add_files _, hcount .folder,
    hcount .file, fun hall => ?_⟩
  -- nothing is too deep, so all that is found is drawn
  have hnear : near (fs.resolve input) depth (fs.pathsBelow fs.nodeCount (fs.resolve input, node))
      = fs.pathsBelow fs.nodeCount (fs.resolve input, node) :=
    List.filter_eq_self.mpr fun path hmem => decide_eq_true (hall path hmem)
  rw [hnear] at hcount
  exact ⟨(hcount .folder).trans (hfound .folder).symm, (hcount .file).trans (hfound .file).symm⟩

/-- One level below the root, over a base that has got two nested folders. -/
theorem draw_agrees_with_find_cut :
    let base := (Base.none.addRecord Path.root
      (.folder "" [.file "log" "", .folder "home" [.file "note" ""]])).1
    let state := (({ base } : FileSystem).perform (.makeFolder "a/b" true)).2
    state.Reachable ∧ state.HasFolder (state.resolve "/") ∧ ∃ all drawing paths,
      state.find "/" {} = .ok all ∧ state.draw "/" 1 = .ok drawing ∧
      paths.Perm (near (state.resolve "/") 1 all) ∧
      List.Forall₂ (state.Draws (state.resolve "/")) drawing.rows paths ∧
      "/a/b" ∈ all ∧ "/a/b" ∉ paths ∧ drawing.folders = 2 ∧ drawing.files = 1 := by
  intro base state
  have hrecord : FileSystem.ofRecord
      (.folder "" [.file "log" "", .folder "home" [.file "note" ""]]) = .ok { base } := rfl
  have hstate : state.Reachable := (Reachable.start hrecord "guest" 0 []).step _
  have hfolder : state.HasFolder (state.resolve "/") :=
    (Option.any_eq_true _ _).mp (by decide +kernel)
  obtain ⟨all, folders, files, drawing, paths, hall, -, -, hdraw, -, -, hperm, hrows, -, hfolders,
    hfiles, -⟩ := draw_agrees_with_find hstate hfolder 1
  have hfind : (state.find "/" {}).toOption = some ["/log", "/home", "/home/note", "/a", "/a/b"] := by
    decide +kernel
  rw [hall] at hfind
  obtain rfl := Option.some.inj hfind
  refine ⟨hstate, hfolder, _, drawing, paths, hall, hdraw, hperm, hrows, by decide, ?_, ?_, ?_⟩
  · rw [hperm.mem_iff]
    decide +kernel
  · rw [hfolders]
    decide +kernel
  · rw [hfiles]
    decide +kernel

end FileSystem

end PocketShell
