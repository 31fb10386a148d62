import PocketShell.Proofs.FileSystem.Numbering
import PocketShell.Proofs.Tree.Plain

set_option autoImplicit false

/-! # The base holds the pruned record

Laying out a record puts one cell for each node of the pruned record into the base, numbers
its path, and writes into each cell the numbers of the children. The base *holds* a tree at a
path (`Holds`) when every walk through the tree ends at a numbered cell with the right node
and the right children, and every other walk ends at no number.

Laying out only adds (`Extends`): paths outside the subtree at work and cells that are there
already stay as they are. So what was laid out before is still held after the rest is
(`Holds.extend`), and the induction over the record goes through.
-/

namespace PocketShell.Base

open PocketShell.Path (AllNames ofNames isName)

/-- The number at the end of the given names. -/
def idAt (base : Base) (names : List String) : Option Nat := base.index[ofNames names]?

/-- The base has no path that starts with the given names. -/
def Free (base : Base) (names : List String) : Prop :=
  ∀ more, AllNames more → base.idAt (names ++ more) = Option.none

/-- The names lead to a cell with the node of `s`, up to the name, which is the last of the
names, and with the numbers of the children of `s`. -/
def ShowsNode (base : Base) (names : List String) (s : TreeRecord) : Prop :=
  ∃ id cell, base.idAt names = some id ∧ base.cells[id]? = some cell ∧
    cell.node = s.node.namedAt (ofNames names) ∧
    cell.children.map some = s.entries.map fun child => base.idAt (names ++ [child.node.name])

/-- **The base holds a tree** below the given names: the paths of the base there are the
walks through the tree. -/
def Holds (base : Base) (names : List String) (t : TreeRecord) : Prop :=
  ∀ more, AllNames more →
    match t.walk more with
    | some s => base.ShowsNode (names ++ more) s
    | Option.none => base.idAt (names ++ more) = Option.none

/-- `base'` has the cells of `base`, and the same numbers at all names outside `region`. -/
structure Extends (base base' : Base) (region : List String → Prop) : Prop where
  idAt_eq : ∀ names, AllNames names → ¬ region names → base'.idAt names = base.idAt names
  cells_eq : ∀ id, id < base.cells.size → base'.cells[id]? = base.cells[id]?

/-- The numbers of a base are those of its cells. -/
abbrev Numbered (base : Base) : Prop := Numbering base.index base.cells.size

/-! ## What stays when the base grows -/

theorem Extends.size_le {base base' : Base} {region : List String → Prop}
    (h : Extends base base' region) : base.cells.size ≤ base'.cells.size := by
  by_contra hlt
  have heq := h.cells_eq base'.cells.size (by omega)
  rw [Array.getElem?_eq_none (Nat.le_refl _), eq_comm, Array.getElem?_eq_none_iff] at heq
  omega

theorem Extends.refl (base : Base) (region : List String → Prop) : Extends base base region :=
  ⟨fun _ _ _ => rfl, fun _ _ => rfl⟩

theorem Extends.trans {base base' base'' : Base} {region region' : List String → Prop}
    (h : Extends base base' region) (h' : Extends base' base'' region') :
    Extends base base'' fun names => region names ∨ region' names := by
  refine ⟨fun names hn hr => ?_, fun id hid => ?_⟩
  · rw [not_or] at hr
    rw [h'.idAt_eq names hn hr.2, h.idAt_eq names hn hr.1]
  · rw [h'.cells_eq id (lt_of_lt_of_le hid h.size_le), h.cells_eq id hid]

theorem Extends.mono {base base' : Base} {region region' : List String → Prop}
    (h : Extends base base' region) (hr : ∀ names, region names → region' names) :
    Extends base base' region' :=
  ⟨fun names hn hr' => h.idAt_eq names hn fun hreg => hr' (hr names hreg), h.cells_eq⟩

theorem ShowsNode.extend {base base' : Base} {region : List String → Prop} {names : List String}
    {s : TreeRecord} (h : base.ShowsNode names s) (hb : base.Numbered)
    (he : Extends base base' region) (hn : AllNames names)
    (hs : ∀ child ∈ s.entries, isName child.node.name = true)
    (hr : ∀ more, ¬ region (names ++ more)) : base'.ShowsNode names s := by
  obtain ⟨id, cell, hid, hcell, hnode, hkids⟩ := h
  refine ⟨id, cell, ?_, ?_, hnode, ?_⟩
  · rw [he.idAt_eq names hn (by simpa using hr []), hid]
  · rw [he.cells_eq id (hb.lt_count hid), hcell]
  · rw [hkids]
    refine List.map_congr_left fun child hc => ?_
    rw [he.idAt_eq _ (Path.allNames_concat.mpr ⟨hn, hs child hc⟩) (hr _)]

/-- The names of the children on a walk through a proper tree are proper. -/
theorem isName_of_mem_entries {t s child : TreeRecord} {more : List String} (ht : t.Proper)
    (hw : t.walk more = some s) (hc : child ∈ s.entries) : isName child.node.name = true := by
  refine (Path.allNames_concat.mp (ht (more ++ [child.node.name]) ?_)).2
  rw [TreeRecord.walk_concat, hw, Option.bind_some, TreeRecord.child?, List.find?_isSome]
  exact ⟨child, hc, by simp⟩

theorem Holds.extend {base base' : Base} {region : List String → Prop} {names : List String}
    {t : TreeRecord} (h : base.Holds names t) (hb : base.Numbered)
    (he : Extends base base' region) (hn : AllNames names) (ht : t.Proper)
    (hr : ∀ more, ¬ region (names ++ more)) : base'.Holds names t := by
  intro more hm
  have hall := Path.allNames_append.mpr ⟨hn, hm⟩
  have hold := h more hm
  cases hw : t.walk more with
  | some s =>
      rw [hw] at hold
      refine ShowsNode.extend hold hb he hall (fun c hc => isName_of_mem_entries ht hw hc) ?_
      intro rest
      rw [List.append_assoc]
      exact hr (more ++ rest)
  | none =>
      rw [hw] at hold
      show base'.idAt (names ++ more) = _
      rw [he.idAt_eq _ hall (hr more), hold]

/-- A tree is held when its root is shown, its children are held, and there is nothing at
the names that no child has. -/
theorem Holds.of_children {base : Base} {names : List String} {t : TreeRecord}
    (hroot : base.ShowsNode names t)
    (hkids : ∀ child ∈ t.entries, base.Holds (names ++ [child.node.name]) child)
    (hfree : ∀ name, isName name = true → t.child? name = Option.none →
      base.Free (names ++ [name])) : base.Holds names t := by
  intro more hm
  cases more with
  | nil =>
      show base.ShowsNode (names ++ []) t
      rwa [List.append_nil]
  | cons name rest =>
      obtain ⟨hname, hrest⟩ := Path.allNames_cons.mp hm
      have happ : names ++ name :: rest = names ++ [name] ++ rest := by simp
      rw [TreeRecord.walk_cons, happ]
      cases hc : t.child? name with
      | none => exact hfree name hname hc rest hrest
      | some child =>
          obtain ⟨hmem, rfl⟩ := TreeRecord.mem_entries_of_child? hc
          exact hkids child hmem rest hrest

/-! ## Adding a cell, and writing its children -/

theorem idAt_push {base : Base} {names : List String} (hn : AllNames names) (node : Node)
    {q : List String} (hq : AllNames q) :
    (base.push (ofNames names) node).idAt q
      = if q = names then some base.cells.size else base.idAt q := by
  rw [idAt]
  show (base.index.insert (ofNames names) base.cells.size)[ofNames q]? = _
  rw [getElem?_insert_string]
  simp only [Path.ofNames_inj hq hn]
  rfl

theorem extends_push (base : Base) {names : List String} (hn : AllNames names) (node : Node) :
    Extends base (base.push (ofNames names) node) (· = names) := by
  refine ⟨fun q hq hne => ?_, fun id hid => ?_⟩
  · rw [idAt_push hn node hq, if_neg hne]
  · show (base.cells.push { node, children := [] })[id]? = _
    rw [Array.getElem?_push, if_neg (Nat.ne_of_lt hid)]

theorem numbered_push {base : Base} (hb : base.Numbered) {names : List String}
    (hn : AllNames names) (hnew : base.idAt names = Option.none) (node : Node) :
    (base.push (ofNames names) node).Numbered := by
  show Numbering _ (base.cells.push { node, children := [] }).size
  rw [Array.size_push]
  exact hb.insert (Path.isCanonical_ofNames hn) hnew

@[simp] theorem idAt_setChildren (base : Base) (id : Nat) (ids : List Nat)
    (names : List String) : (base.setChildren id ids).idAt names = base.idAt names := rfl

theorem getElem?_setChildren (base : Base) (id : Nat) (ids : List Nat) (i : Nat) :
    (base.setChildren id ids).cells[i]?
      = (base.cells[i]?).map fun cell => if i = id then { cell with children := ids } else cell := by
  show (base.cells.modify id fun cell => { cell with children := ids })[i]? = _
  rw [Array.getElem?_modify]
  by_cases h : id = i
  · simp [h]
  · simp [h, Ne.symm h]

theorem numbered_setChildren {base : Base} (hb : base.Numbered) (id : Nat) (ids : List Nat) :
    (base.setChildren id ids).Numbered := by
  show Numbering base.index (base.cells.modify id _).size
  rwa [Array.size_modify]

/-- Writing the children of one cell changes nothing at the names that lead to others. -/
theorem Holds.setChildren {base : Base} {names other : List String} {t : TreeRecord} {id : Nat}
    (h : base.Holds names t) (hb : base.Numbered) (hn : AllNames names) (ho : AllNames other)
    (hid : base.idAt other = some id) (hne : ¬ names <+: other) (ids : List Nat) :
    (base.setChildren id ids).Holds names t := by
  intro more hm
  have hold := h more hm
  cases hw : t.walk more with
  | none =>
      rw [hw] at hold
      exact hold
  | some s =>
      rw [hw] at hold
      obtain ⟨i, cell, hi, hcell, hnode, hkids⟩ := hold
      -- the cell belongs to the path `other`, which is not below the names
      have hine : i ≠ id := by
        rintro rfl
        have heq := hb.inj hi hid
        rw [Path.ofNames_inj (Path.allNames_append.mpr ⟨hn, hm⟩) ho] at heq
        exact hne (heq ▸ List.prefix_append names more)
      refine ⟨i, cell, hi, ?_, hnode, hkids⟩
      rw [getElem?_setChildren, hcell, Option.map_some, if_neg hine]

/-! ## Laying out -/

/-- What putting a new cell for `node` at the end of `names` leaves behind. -/
structure Opened (base : Base) (names : List String) (node : Node) (result : Base) : Prop where
  numbered : result.Numbered
  idAt_eq : result.idAt names = some base.cells.size
  cell_eq : result.cells[base.cells.size]?
    = some ⟨node.namedAt (ofNames names), []⟩
  free : ∀ name, isName name = true → result.Free (names ++ [name])
  grown : Extends base result (· = names)

/-- What laying out one record leaves behind. -/
structure LaidOut (base : Base) (names : List String) (record : TreeRecord)
    (result : Base × Nat) : Prop where
  numbered : result.1.Numbered
  idAt_eq : result.1.idAt names = some result.2
  holds : result.1.Holds names record.prune
  grown : Extends base result.1 (names <+: ·)

/-- What laying out the children of a folder leaves behind. -/
structure ChildrenLaidOut (base : Base) (names : List String) (kept : List TreeRecord)
    (result : Base × List Nat) : Prop where
  numbered : result.1.Numbered
  ids_eq : result.2.map some = kept.map fun child => result.1.idAt (names ++ [child.node.name])
  holds : ∀ child ∈ kept, result.1.Holds (names ++ [child.node.name]) child
  grown : Extends base result.1 fun q => ∃ child ∈ kept, names ++ [child.node.name] <+: q

theorem eq_of_concat_isPrefix {names more : List String} {a b : String}
    (h : names ++ [a] <+: names ++ b :: more) : a = b := by
  rw [List.prefix_append_right_inj, List.cons_prefix_cons] at h
  exact h.1

/-- A record is admitted when its name is proper and not taken, `taken` being the names that
the base has below the folder. -/
theorem admits_eq {base : Base} {names taken : List String} (hn : AllNames names)
    (htaken : ∀ name, isName name = true →
      (name ∈ taken ↔ (base.idAt (names ++ [name])).isSome = true)) (name : String) :
    base.admits (ofNames names) name = (isName name && !taken.contains name) := by
  rw [admits, Path.child_ofNames hn]
  cases hname : isName name with
  | false => rfl
  | true =>
      have hcontains : base.index.contains (ofNames (names ++ [name])) = taken.contains name := by
        rw [Bool.eq_iff_iff, Std.TreeMap.contains_eq_isSome_getElem?, List.contains_eq_mem,
          decide_eq_true_eq]
        exact (htaken name hname).symm
      rw [hcontains]

/-- A record that is laid out first, and others with other names after it. -/
theorem LaidOut.cons {base : Base} {names : List String} {record : TreeRecord}
    {kept : List TreeRecord} {first : Base × Nat} {rest : Base × List Nat}
    (h1 : LaidOut base (names ++ [record.node.name]) record first)
    (hnn : AllNames (names ++ [record.node.name])) (h2 : ChildrenLaidOut first.1 names kept rest)
    (hother : ∀ child ∈ kept, child.node.name ≠ record.node.name) :
    ChildrenLaidOut base names (record.prune :: kept) (rest.1, first.2 :: rest.2) := by
  -- the others stay away from what was laid out first
  have happart : ∀ more, ¬ ∃ child ∈ kept,
      names ++ [child.node.name] <+: names ++ [record.node.name] ++ more := by
    rintro more ⟨child, hc, hp⟩
    rw [List.append_assoc] at hp
    exact hother child hc (eq_of_concat_isPrefix hp)
  refine ⟨h2.numbered, ?_, ?_, ?_⟩
  · rw [List.map_cons, List.map_cons, h2.ids_eq, TreeRecord.node_prune]
    refine congrArg (· :: _) ?_
    have happart := happart []
    rw [List.append_nil] at happart
    exact h1.idAt_eq.symm.trans (h2.grown.idAt_eq _ hnn happart).symm
  · intro child hc
    rcases List.mem_cons.mp hc with rfl | hc
    · rw [TreeRecord.node_prune]
      exact h1.holds.extend h1.numbered h2.grown hnn (TreeRecord.proper_prune _) happart
    · exact h2.holds child hc
  · refine (h1.grown.trans h2.grown).mono ?_
    rintro q (hq | ⟨child, hc, hq⟩)
    · exact ⟨_, List.mem_cons_self, by rwa [TreeRecord.node_prune]⟩
    · exact ⟨child, List.mem_cons_of_mem _ hc, hq⟩

/-- The children of a folder are laid out one after the other, each below names of its own. -/
theorem addChildren_laidOut {records : List TreeRecord}
    (hrecords : ∀ record ∈ records, ∀ (base : Base) (names : List String), AllNames names →
      base.Numbered → base.Free names →
        LaidOut base names record (base.addRecord (ofNames names) record))
    {names : List String} (hn : AllNames names) (base : Base) (taken : List String)
    (hb : base.Numbered)
    (htaken : ∀ name, isName name = true →
      (name ∈ taken ↔ (base.idAt (names ++ [name])).isSome = true))
    (hfree : ∀ name, isName name = true → name ∉ taken → base.Free (names ++ [name])) :
    ChildrenLaidOut base names (TreeRecord.pruneAll taken records)
      (base.addChildren (ofNames names) records) := by
  induction records generalizing base taken with
  | nil =>
      rw [addChildren, TreeRecord.pruneAll]
      exact ⟨hb, rfl, fun c hc => absurd hc List.not_mem_nil, Extends.refl base _⟩
  | cons record rest ih =>
      obtain ⟨node, children⟩ := record
      have ih := ih fun r hr => hrecords r (List.mem_cons_of_mem _ hr)
      rw [addChildren, TreeRecord.pruneAll, admits_eq hn htaken, Path.child_ofNames hn]
      by_cases hkeep : (isName node.name && !taken.contains node.name) = true
      · rw [if_pos hkeep, if_pos hkeep]
        rw [Bool.and_eq_true, Bool.not_eq_true', List.contains_eq_mem,
          decide_eq_false_iff_not] at hkeep
        obtain ⟨hname, hnew⟩ := hkeep
        have hnn := Path.allNames_concat.mpr ⟨hn, hname⟩
        have h1 := hrecords _ List.mem_cons_self base _ hnn hb (hfree _ hname hnew)
        set r1 := base.addRecord (ofNames (names ++ [node.name])) (.mk node children)
        -- the rest is laid out over `r1`, with one more name taken
        -- the record that was laid out takes its name, and no other name
        have hother : ∀ n more, isName n = true → AllNames more → n ≠ node.name →
            r1.1.idAt (names ++ n :: more) = base.idAt (names ++ n :: more) := by
          intro n more hnm hm hne
          refine h1.grown.idAt_eq _
            (Path.allNames_append.mpr ⟨hn, Path.allNames_cons.mpr ⟨hnm, hm⟩⟩) fun hp => ?_
          exact hne (eq_of_concat_isPrefix hp).symm
        have h2 := ih r1.1 (node.name :: taken) h1.numbered
          (by
            intro n hnm
            by_cases hne : n = node.name
            · subst hne
              simp [h1.idAt_eq]
            · rw [hother n [] hnm Path.allNames_nil hne, ← htaken n hnm]
              simp [hne])
          (by
            intro n hnm hnt more hm
            rw [List.mem_cons, not_or] at hnt
            have hold := hfree n hnm hnt.2 more hm
            rw [List.append_assoc] at hold ⊢
            exact (hother n more hnm hm hnt.1).trans hold)
        refine h1.cons hnn h2 fun child hc heq => ?_
        exact (TreeRecord.mem_pruneAll hc).2.1 (heq ▸ List.mem_cons_self)
      · rw [if_neg hkeep, if_neg hkeep]
        exact ih base taken hb htaken hfree

theorem push_opened {base : Base} {names : List String} (hn : AllNames names) (hb : base.Numbered)
    (hfree : base.Free names) (node : Node) :
    Opened base names node
      (base.push (ofNames names) (node.namedAt (ofNames names))) := by
  have hnew : base.idAt names = Option.none := by simpa using hfree [] Path.allNames_nil
  have he := extends_push base hn (node.namedAt (ofNames names))
  refine ⟨numbered_push hb hn hnew _, ?_, ?_, ?_, he⟩
  · rw [idAt_push hn _ hn, if_pos rfl]
  · show (base.cells.push _)[_]? = _
    rw [Array.getElem?_push_size]
  · intro name hname more hm
    have hall := Path.allNames_append.mpr ⟨hn, Path.allNames_cons.mpr ⟨hname, hm⟩⟩
    rw [List.append_assoc, List.singleton_append, he.idAt_eq _ hall (by simp)]
    exact hfree _ (Path.allNames_cons.mpr ⟨hname, hm⟩)

/-- The cell of a file is all there is to lay out. -/
theorem Opened.laidOut_file {base base1 : Base} {names : List String} {node : Node}
    (h : Opened base names node base1) (hkind : node.kind = .file) (children : List TreeRecord) :
    LaidOut base names (.mk node children) (base1, base.cells.size) := by
  have hentries : (TreeRecord.mk node children).prune.entries = [] := by
    rw [TreeRecord.entries_prune]
    simp [TreeRecord.node, Node.isFolder, hkind]
  refine ⟨h.numbered, h.idAt_eq, ?_, h.grown.mono ?_⟩
  · refine Holds.of_children ⟨_, _, h.idAt_eq, h.cell_eq, ?_, ?_⟩ ?_ ?_
    · rw [TreeRecord.node_prune]
      rfl
    · rw [hentries]
      rfl
    · rw [hentries]
      exact fun child hc => absurd hc List.not_mem_nil
    · exact fun name hname _ => h.free name hname
  · rintro q rfl
    exact List.prefix_refl q

/-- After the children of a folder are laid out, their numbers go into its cell. -/
theorem Opened.laidOut_folder {base base1 : Base} {names : List String} {node : Node}
    (h : Opened base names node base1) (hn : AllNames names) (hkind : node.kind = .folder)
    {children : List TreeRecord} {result : Base × List Nat}
    (h2 : ChildrenLaidOut base1 names (TreeRecord.pruneAll [] children) result) :
    LaidOut base names (.mk node children)
      (result.1.setChildren base.cells.size result.2, base.cells.size) := by
  have hentries : (TreeRecord.mk node children).prune.entries = TreeRecord.pruneAll [] children := by
    rw [TreeRecord.entries_prune]
    simp [TreeRecord.node, TreeRecord.children, Node.isFolder, hkind]
  have hlt : base.cells.size < base1.cells.size := h.numbered.lt_count h.idAt_eq
  -- the children lie below the folder, so its own number and cell are still those of `base1`
  have hself : ¬ ∃ child ∈ TreeRecord.pruneAll [] children,
      names ++ [child.node.name] <+: names := by
    rintro ⟨child, -, hp⟩
    have hlen := hp.length_le
    simp at hlen
  have hid : result.1.idAt names = some base.cells.size := by
    rw [h2.grown.idAt_eq names hn hself, h.idAt_eq]
  have hcell : (result.1.setChildren base.cells.size result.2).cells[base.cells.size]?
      = some ⟨node.namedAt (ofNames names), result.2⟩ := by
    rw [getElem?_setChildren, h2.grown.cells_eq _ hlt, h.cell_eq, Option.map_some, if_pos rfl]
  refine ⟨numbered_setChildren h2.numbered _ _, hid, ?_, ⟨fun q hq hne => ?_, fun i hi => ?_⟩⟩
  · refine Holds.of_children ⟨_, _, hid, hcell, ?_, ?_⟩ ?_ ?_
    · rw [TreeRecord.node_prune]
      rfl
    · rw [hentries]
      exact h2.ids_eq
    · rw [hentries]
      intro child hc
      have hname := (TreeRecord.mem_pruneAll hc).1
      refine (h2.holds child hc).setChildren h2.numbered
        (Path.allNames_concat.mpr ⟨hn, hname⟩) hn hid ?_ result.2
      exact fun hp => hself ⟨child, hc, hp⟩
    · -- a name that no child has is as free as it was before the children came
      intro name hname hnone more hm
      have hall := Path.allNames_append.mpr ⟨Path.allNames_concat.mpr ⟨hn, hname⟩, hm⟩
      show result.1.idAt _ = _
      rw [h2.grown.idAt_eq _ hall, h.free name hname more hm]
      rintro ⟨child, hc, hp⟩
      rw [List.append_assoc] at hp
      rw [TreeRecord.child?, hentries, List.find?_eq_none] at hnone
      exact hnone child hc (by simpa using eq_of_concat_isPrefix hp)
  · show result.1.idAt q = _
    rw [h2.grown.idAt_eq q hq, h.grown.idAt_eq q hq]
    · rintro rfl
      exact hne (List.prefix_refl q)
    · rintro ⟨child, -, hp⟩
      exact hne ((List.prefix_append names _).trans hp)
  · have hine : i ≠ base.cells.size := Nat.ne_of_lt hi
    rw [getElem?_setChildren, h2.grown.cells_eq i (lt_trans hi hlt), h.grown.cells_eq i hi]
    simp [hine]

/-- **Laying out a record puts the pruned record into the base**, below names where the base
had nothing. -/
theorem addRecord_laidOut (record : TreeRecord) (base : Base) {names : List String}
    (hn : AllNames names) (hb : base.Numbered) (hfree : base.Free names) :
    LaidOut base names record (base.addRecord (ofNames names) record) := by
  obtain ⟨node, children⟩ := record
  -- the children are smaller records
  have hrecords : ∀ r ∈ children, ∀ (base : Base) (names : List String), AllNames names →
      base.Numbered → base.Free names → LaidOut base names r (base.addRecord (ofNames names) r) :=
    fun r hr base names hn hb hfree => addRecord_laidOut r base hn hb hfree
  have hopen : Opened base names node
      (base.push (ofNames names) { node with name := Path.fileName (ofNames names) }) :=
    push_opened hn hb hfree node
  rw [addRecord]
  generalize base.push _ _ = base1 at hopen ⊢
  cases hkind : node.kind with
  | file => exact hopen.laidOut_file hkind children
  | folder =>
      refine hopen.laidOut_folder hn hkind
        (addChildren_laidOut hrecords hn base1 [] hopen.numbered ?_ ?_)
      · intro name hname
        have hnone := hopen.free name hname [] Path.allNames_nil
        rw [List.append_nil] at hnone
        simp [hnone]
      · exact fun name hname _ => hopen.free name hname
termination_by sizeOf record
decreasing_by
  have := List.sizeOf_lt_of_mem hr
  simp
  omega

/-! ## The base of a record -/

theorem isFolder_of_ofRecord {record : TreeRecord} {base : Base}
    (h : ofRecord record = .ok base) : record.node.isFolder = true := by
  rw [ofRecord] at h
  split_ifs at h with hf
  exact hf

/-- **The base of a record of a folder** numbers its paths and holds the pruned record at the
root. -/
theorem ofRecord_holds {record : TreeRecord} {base : Base} (h : ofRecord record = .ok base) :
    base.Numbered ∧ base.Holds [] record.prune := by
  rw [ofRecord] at h
  split_ifs at h
  obtain rfl := Except.ok.inj h
  have hfree : none.Free [] := by
    intro more _
    show (∅ : Std.TreeMap String Nat)[_]? = _
    exact Std.TreeMap.getElem?_emptyc
  have hl := addRecord_laidOut record none Path.allNames_nil Numbering.empty hfree
  exact ⟨hl.numbered, hl.holds⟩

theorem Holds.node?_ofNames {base : Base} {t : TreeRecord} (h : base.Holds [] t)
    {names : List String} (hn : AllNames names) :
    base.node? (ofNames names) = (t.walk names).map fun s => s.node.namedAt (ofNames names) := by
  have hold := h names hn
  rw [List.nil_append] at hold
  rw [node?, cell?]
  cases hw : t.walk names with
  | none =>
      rw [hw] at hold
      have hid : base.index[ofNames names]? = Option.none := hold
      rw [hid]
      rfl
  | some s =>
      rw [hw] at hold
      obtain ⟨id, cell, hid, hcell, hnode, -⟩ := hold
      have hid : base.index[ofNames names]? = some id := hid
      rw [hid, Option.bind_some, hcell, Option.map_some, hnode]
      rfl

/-- **The children in the base are those of the pruned record**, in its order. -/
theorem Holds.childrenOf_ofNames {base : Base} {record : TreeRecord}
    (h : base.Holds [] record.prune) {names : List String} (hn : AllNames names) :
    base.childrenOf (ofNames names)
      = ((record.prune.walk names).map fun s => s.entries.map TreeRecord.node).getD [] := by
  have hold := h names hn
  rw [List.nil_append] at hold
  rw [childrenOf, cell?]
  cases hw : record.prune.walk names with
  | none =>
      rw [hw] at hold
      have hid : base.index[ofNames names]? = Option.none := hold
      rw [hid]
      rfl
  | some s =>
      rw [hw] at hold
      obtain ⟨id, cell, hid, hcell, -, hkids⟩ := hold
      have hid : base.index[ofNames names]? = some id := hid
      rw [hid, Option.bind_some, hcell]
      show cell.children.filterMap (fun i => base.cells[i]?.map BaseCell.node)
        = s.entries.map TreeRecord.node
      -- each number listed is the one at the path of its child
      have hnode : ∀ child ∈ s.entries,
          (base.idAt (names ++ [child.node.name])).bind (fun i => base.cells[i]?.map BaseCell.node)
            = some child.node := by
        intro child hc
        have hname := isName_of_mem_entries (TreeRecord.proper_prune record) hw hc
        have hat := h.node?_ofNames (Path.allNames_concat.mpr ⟨hn, hname⟩)
        rw [TreeRecord.walk_concat, hw, Option.bind_some, TreeRecord.child?_of_walk_prune hw hc,
          Option.map_some, Node.namedAt, Path.fileName_ofNames names hname, node?, cell?,
          Option.map_bind] at hat
        exact hat
      calc cell.children.filterMap (fun i => base.cells[i]?.map BaseCell.node)
          = (cell.children.map some).filterMap fun i? =>
              i?.bind fun i => base.cells[i]?.map BaseCell.node := by
            rw [List.filterMap_map]
            rfl
        _ = s.entries.filterMap fun child => some child.node := by
            rw [hkids, List.filterMap_map]
            exact List.filterMap_congr hnode
        _ = s.entries.map TreeRecord.node := by
            rw [List.filterMap_eq_map']

end PocketShell.Base
