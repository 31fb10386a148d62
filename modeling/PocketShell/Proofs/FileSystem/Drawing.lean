import PocketShell.FileSystem.Traversal
import PocketShell.Proofs.FileSystem.Listing
import PocketShell.Proofs.FileSystem.Outline

set_option autoImplicit false

/-! # What a drawing tells

What is in a folder, cut off after some levels, has just one outline in the order of listings
(`Outlined`, told by look-ups alone). A drawing of the folder is the drawing of this outline
(`Listed.exists_outlined`). Since the lines of an outline determine it, drawings with the same lines
are of folders with the same outline, in whatever file systems these are (`lines_eq_iff_outline_eq`).
-/

namespace PocketShell

open PocketShell.Path (AllNames ofNames isName)

namespace FileSystem

/-! ## The outline of a folder -/

/-- **Siblings are those of a folder**: there is one for each name in the folder, with the kind of
the node there, and they are in the order of listings. -/
structure HasSiblings (fs : FileSystem) (dir : String) (forest : List Outline) : Prop where
  ordered : forest.Pairwise fun a b => StandsBefore a.label b.label
  mem_iff : ∀ (name : NodeName) (kind : NodeKind), (∃ tree ∈ forest, tree.label = (name.val, kind))
    ↔ ∃ node, fs.lookup (Path.child dir name.val) = some node ∧ node.kind = kind

/-- **The outline of what is in a folder, cut off after some levels.** Below a folder at the last
level nothing is left. -/
def Outlined (fs : FileSystem) : Nat → String → List Outline → Prop
  | 0, _, forest => forest = []
  | depth + 1, dir, forest => fs.HasSiblings dir forest ∧
      ∀ name below, .folder name below ∈ forest →
        fs.Outlined depth (Path.child dir name.val) below

variable {fs : FileSystem}

/-- Siblings of one folder are the same if those with one label are. -/
theorem HasSiblings.eq_of_label {dir : String} {forest other : List Outline}
    (h : fs.HasSiblings dir forest) (h' : fs.HasSiblings dir other)
    (hsame : ∀ tree ∈ forest, ∀ tree' ∈ other, tree.label = tree'.label → tree = tree') :
    forest = other := by
  refine StandsBefore.eq_of_mem_iff h.ordered h'.ordered fun tree => ?_
  obtain ⟨name, kind, hlabel⟩ := tree.exists_label
  constructor
  · intro htree
    obtain ⟨found, hfound, heq⟩ :=
      (h'.mem_iff name kind).mpr ((h.mem_iff name kind).mp ⟨tree, htree, hlabel⟩)
    rwa [hsame tree htree found hfound (hlabel.trans heq.symm)]
  · intro htree
    obtain ⟨found, hfound, heq⟩ :=
      (h.mem_iff name kind).mpr ((h'.mem_iff name kind).mp ⟨tree, htree, hlabel⟩)
    rwa [← hsame found hfound tree htree (heq.trans hlabel.symm)]

/-- **A folder has one outline only.** -/
theorem Outlined.unique {depth : Nat} {dir : String} {forest other : List Outline}
    (h : fs.Outlined depth dir forest) (h' : fs.Outlined depth dir other) : forest = other := by
  induction depth generalizing dir forest other with
  | zero => exact h.trans h'.symm
  | succ depth ih =>
      refine h.1.eq_of_label h'.1 fun tree htree tree' htree' hlabel => ?_
      cases tree with
      | file name =>
          cases tree' with
          | file name' => rw [Subtype.ext (congrArg Prod.fst hlabel)]
          | folder name' _ => cases congrArg Prod.snd hlabel
      | folder name below =>
          cases tree' with
          | file name' => cases congrArg Prod.snd hlabel
          | folder name' below' =>
              obtain rfl : name = name' := Subtype.ext (congrArg Prod.fst hlabel)
              rw [ih (h.2 _ _ htree) (h'.2 _ _ htree')]

/-! ## A drawing is that of the outline -/

/-- Siblings are drawn as their outlines are. -/
theorem lines_drawSiblings {rowsBelow : String → String → List DrawnRow}
    {outline : String × Node → Outline} {siblings : List (String × Node)}
    (h : ∀ child ∈ siblings, (outline child).label = child.2.label ∧
      ∀ indent, Outline.linesBelow indent (outline child)
        = (if child.2.isFolder then rowsBelow child.1 indent else []).map DrawnRow.text)
    (indent : String) :
    (drawSiblings rowsBelow indent siblings).map DrawnRow.text
      = Outline.lines indent (siblings.map outline) := by
  induction siblings with
  | nil => rfl
  | cons child rest ih =>
      obtain ⟨⟨hlabel, hbelow⟩, hrest⟩ := List.forall_mem_cons.mp h
      have hshown : (outline child).shown = child.2.name ++ if child.2.isFolder then "/" else "" := by
        rw [Outline.shown_eq, hlabel]
        rfl
      rw [drawSiblings, List.map_cons, List.map_append, ih hrest, List.map_cons, Outline.lines,
        List.isEmpty_map, hbelow, hshown, ← String.append_assoc]
      rfl

/-- Outlines with the names and kinds of the children are the siblings in a folder. -/
theorem Listed.hasSiblings_map (h : fs.Listed) {names : List String} (hn : AllNames names)
    {outline : String × Node → Outline}
    (hlabel : ∀ child ∈ fs.sortedChildren (ofNames names),
      (outline child).label = child.2.label) :
    fs.HasSiblings (ofNames names) ((fs.sortedChildren (ofNames names)).map outline) := by
  refine ⟨?_, fun name kind => ⟨?_, ?_⟩⟩
  · rw [List.pairwise_map]
    refine (h.pairwise_sortedChildren hn).imp_of_mem fun {a b} ha hb hbefore => ?_
    rwa [hlabel a ha, hlabel b hb]
  · rintro ⟨_, htree, heq⟩
    obtain ⟨child, hmem, rfl⟩ := List.mem_map.mp htree
    obtain ⟨-, hpath, hlookup⟩ := (h.mem_sortedChildren hn).mp hmem
    rw [hlabel child hmem] at heq
    obtain ⟨hname, hkind⟩ := Prod.mk.inj heq
    rw [hpath, hname] at hlookup
    exact ⟨child.2, hlookup, hkind⟩
  · rintro ⟨node, hnode, rfl⟩
    obtain ⟨heq, hmem⟩ := h.mem_sortedChildren_of_lookup hn name.property hnode
    refine ⟨_, List.mem_map_of_mem hmem, ?_⟩
    rw [hlabel _ hmem, Node.label, heq]

/-- **A drawing is that of the outline**, which there always is. -/
theorem Listed.exists_outlined (h : fs.Listed) (depth : Nat) {names : List String}
    (hn : AllNames names) : ∃ forest, fs.Outlined depth (ofNames names) forest ∧
      ∀ indent, (fs.drawRows depth (ofNames names) indent).map DrawnRow.text
        = Outline.lines indent forest := by
  induction depth generalizing names with
  | zero => exact ⟨[], rfl, fun _ => rfl⟩
  | succ depth ih =>
      -- below a child there is an outline of one level less; for a file it is not used
      have hchild : ∀ child ∈ fs.sortedChildren (ofNames names),
          ∃ (name : NodeName) (below : List Outline), name.val = child.2.name ∧
            child.1 = Path.child (ofNames names) name.val ∧ fs.Outlined depth child.1 below ∧
            ∀ indent, (fs.drawRows depth child.1 indent).map DrawnRow.text
              = Outline.lines indent below := by
        intro child hmem
        obtain ⟨hname, hpath, -⟩ := (h.mem_sortedChildren hn).mp hmem
        obtain ⟨below, houtlined, hlines⟩ := ih (Path.allNames_concat.mpr ⟨hn, hname⟩)
        rw [← Path.child_ofNames hn, ← hpath] at houtlined hlines
        exact ⟨⟨child.2.name, hname⟩, below, rfl, hpath, houtlined, hlines⟩
      have hnonempty : Nonempty NodeName := ⟨⟨"a", by decide⟩⟩
      choose! name below hname hpath houtlined hlines using hchild
      refine ⟨(fs.sortedChildren (ofNames names)).map fun child =>
        Outline.top (name child) child.2.kind (below child), ⟨?_, ?_⟩, ?_⟩
      · refine h.hasSiblings_map hn fun child hmem => ?_
        rw [Outline.label_top, hname child hmem, Node.label]
      · intro name' below' htree
        obtain ⟨child, hmem, heq⟩ := List.mem_map.mp htree
        obtain ⟨rfl, rfl⟩ := Outline.eq_of_top_eq_folder heq
        rw [← hpath child hmem]
        exact houtlined child hmem
      · refine lines_drawSiblings fun child hmem => ⟨?_, fun indent => ?_⟩
        · rw [Outline.label_top, hname child hmem, Node.label]
        · rw [Outline.linesBelow_top, ← hlines child hmem, apply_ite (List.map DrawnRow.text)]
          rfl

/-- Of what an input names there is just one outline, and it is the one that is drawn. -/
theorem Reachable.exists_outline (h : fs.Reachable) (input : String) (depth : Nat) :
    ∃ outline, (∀ forest, fs.Outlined depth (fs.resolve input) forest ↔ forest = outline) ∧
      (fs.drawRows depth (fs.resolve input) "").map DrawnRow.text = Outline.lines "" outline := by
  obtain ⟨names, hn, hpath⟩ := Path.isCanonical_resolve fs.cwd input
  obtain ⟨outline, houtlined, hlines⟩ := h.listed.exists_outlined depth hn
  rw [show fs.resolve input = ofNames names from hpath]
  refine ⟨outline, fun forest => ⟨fun hforest => hforest.unique houtlined, ?_⟩, hlines ""⟩
  rintro rfl
  exact houtlined

/-! ## Drawings with the same lines -/

theorem draw_eq {input : String} (hfolder : fs.HasFolder (fs.resolve input)) (depth : Nat) :
    fs.draw input depth = .ok { rows := fs.drawRows depth (fs.resolve input) "" } := by
  obtain ⟨node, hnode, hf⟩ := hfolder
  have hrequire : fs.requireFolder (fs.resolve input) = .ok node := by
    simp only [requireFolder, hnode, if_pos hf]
  rw [draw]
  show (fs.requireFolder (fs.resolve input) >>= _) = _
  rw [hrequire]
  rfl

/-- **A drawing loses nothing**: in any two file systems, two folders can be drawn to any depth,
each of them has just one outline to that depth, and the drawings have the same lines only if these
outlines are the same. -/
theorem lines_eq_iff_outline_eq {fs' : FileSystem} (h : fs.Reachable) (h' : fs'.Reachable)
    {input input' : String} (hfolder : fs.HasFolder (fs.resolve input))
    (hfolder' : fs'.HasFolder (fs'.resolve input')) (depth : Nat) :
    ∃ drawing drawing' outline outline',
      fs.draw input depth = .ok drawing ∧ fs'.draw input' depth = .ok drawing' ∧
      (∀ forest, fs.Outlined depth (fs.resolve input) forest ↔ forest = outline) ∧
      (∀ forest, fs'.Outlined depth (fs'.resolve input') forest ↔ forest = outline') ∧
      (drawing.lines = drawing'.lines ↔ outline = outline') := by
  obtain ⟨outline, houtlined, hlines⟩ := h.exists_outline input depth
  obtain ⟨outline', houtlined', hlines'⟩ := h'.exists_outline input' depth
  refine ⟨_, _, outline, outline', draw_eq hfolder depth, draw_eq hfolder' depth, houtlined,
    houtlined', ?_⟩
  rw [Drawing.lines, Drawing.lines, hlines, hlines', (Outline.lines_injective "").eq_iff]

/-- A folder whose name looks like a line of a drawing: made in a session, and as a part of the
base. -/
theorem lines_eq_iff_outline_eq_marks :
    let made := (FileSystem.empty.perform (.makeFolder "top/├── a" true)).2
    let state := (made.perform (.touch "top/├── a/b\n└── c")).2
    let other : FileSystem := { base := (Base.none.addRecord Path.root
      (.folder "" [.folder "├── a" [.file "b\n└── c" ""]])).1 }
    state.Reachable ∧ other.Reachable ∧ state.HasFolder (state.resolve "top") ∧
      other.HasFolder (other.resolve "/") ∧ ∃ outline,
        (∀ forest, state.Outlined 2 (state.resolve "top") forest ↔ forest = outline) ∧
        (∀ forest, other.Outlined 2 (other.resolve "/") forest ↔ forest = outline) := by
  intro made state other
  have hempty : FileSystem.ofRecord (.folder "" []) = .ok FileSystem.empty := rfl
  have hstate : state.Reachable := ((Reachable.start hempty "guest" 0 []).step _).step _
  have hrecord : FileSystem.ofRecord (.folder "" [.folder "├── a" [.file "b\n└── c" ""]])
      = .ok other := rfl
  have hother : other.Reachable := Reachable.start hrecord "guest" 0 []
  have hfolder : ∀ {fs : FileSystem} {path : String},
      (fs.lookup path).any Node.isFolder = true → fs.HasFolder path := fun h =>
    (Option.any_eq_true _ _).mp h
  have htop : state.HasFolder (state.resolve "top") := hfolder (by decide +kernel)
  have hroot : other.HasFolder (other.resolve "/") := hfolder (by decide +kernel)
  obtain ⟨drawing, drawing', outline, outline', hdraw, hdraw', hfirst, hsecond, hiff⟩ :=
    lines_eq_iff_outline_eq hstate hother htop hroot 2
  have hlines : (state.draw "top" 2).toOption.map Drawing.lines
      = (other.draw "/" 2).toOption.map Drawing.lines := by decide +kernel
  rw [hdraw, hdraw'] at hlines
  obtain rfl := hiff.mp (Option.some.inj hlines)
  exact ⟨hstate, hother, htop, hroot, outline, hfirst, hsecond⟩

end FileSystem

end PocketShell
