import PocketShell.Proofs.FileSystem.Numbering
import Mathlib.Data.String.Basic

set_option autoImplicit false

/-! # The overlay as a map with an order of creation

An overlay is well formed when every path leads to a node of its own and every path is
canonical. Two views describe it from outside: `node?`, the node at each path, and
`childrenOf`, the children of a folder in the order in which they were first written.

The scan behind `childrenOf` looks at one stretch of the ordered paths only. Since the paths
that start with a given text stand together in the order, it finds the same entries as a look
at all paths (`childrenOf_eq`). From this follows what `insert` does to the children: a path
written before leaves them as they are, and a new one comes last under its parent.
-/

namespace PocketShell

/-! ## Texts with a given start stand together -/

namespace Text

/-- A text is not before its own start. -/
theorem not_lt_of_isPrefix : ∀ {start cs : List Char}, start <+: cs → ¬ cs < start
  | [], cs, _ => by simp
  | a :: start, [], h => by simp at h
  | a :: start, b :: cs, h => by
      obtain ⟨rfl, hp⟩ := List.cons_prefix_cons.mp h
      rw [List.cons_lt_cons_iff, not_or]
      exact ⟨lt_irrefl a, fun hlt => not_lt_of_isPrefix hp hlt.2⟩

/-- After a text that is not before `start` and does not start with it, none does. -/
theorem not_isPrefix_of_lt : ∀ {start cs ds : List Char},
    ¬ cs < start → ¬ start <+: cs → cs < ds → ¬ start <+: ds
  | [], cs, ds, _, hp, _ => absurd List.nil_prefix hp
  | a :: start, [], ds, hge, _, _ => by simp at hge
  | a :: start, b :: cs, [], _, _, hlt => by simp at hlt
  | a :: start, b :: cs, d :: ds, hge, hp, hlt => by
      rw [List.cons_lt_cons_iff, not_or, not_and] at hge
      rw [List.cons_prefix_cons, not_and] at hp
      rw [List.cons_lt_cons_iff] at hlt
      rw [List.cons_prefix_cons]
      rintro ⟨rfl, hpd⟩
      rcases hlt with hlt | ⟨rfl, hlt⟩
      · exact hge.1 hlt
      · exact not_isPrefix_of_lt (hge.2 rfl) (hp rfl) hlt hpd

theorem startsWith_iff (s start : String) :
    startsWith s start = true ↔ start.toList <+: s.toList := List.isPrefixOf_iff_prefix

end Text

/-- In an ordered list of texts that are not before `start`, those that start with it come
first. -/
theorem takeWhile_startsWith {α : Type} (key : α → String) (start : String) :
    ∀ (l : List α), l.Pairwise (fun a b => key a < key b) → (∀ a ∈ l, ¬ key a < start) →
      l.takeWhile (fun a => Text.startsWith (key a) start)
        = l.filter fun a => Text.startsWith (key a) start
  | [], _, _ => rfl
  | a :: l, hl, hge => by
      obtain ⟨ha, hl⟩ := List.pairwise_cons.mp hl
      obtain ⟨hgea, hge⟩ := List.forall_mem_cons.mp hge
      by_cases hs : Text.startsWith (key a) start = true
      · rw [List.takeWhile_cons, if_pos hs, List.filter_cons, if_pos hs,
          takeWhile_startsWith key start l hl hge]
      · rw [List.takeWhile_cons, if_neg hs, List.filter_cons, if_neg hs, Eq.comm,
          List.filter_eq_nil_iff]
        intro b hb hsb
        rw [Text.startsWith_iff] at hs hsb
        exact Text.not_isPrefix_of_lt (String.lt_iff.not.mp hgea) hs
          (String.lt_iff.mp (ha b hb)) hsb

/-- The texts that start with `start` are one stretch of an ordered list. -/
theorem takeWhile_dropWhile_startsWith {α : Type} (key : α → String) (start : String) :
    ∀ (l : List α), l.Pairwise (fun a b => key a < key b) →
      (l.dropWhile fun a => decide (key a < start)).takeWhile
          (fun a => Text.startsWith (key a) start)
        = l.filter fun a => Text.startsWith (key a) start
  | [], _ => rfl
  | a :: l, hl => by
      by_cases hlt : key a < start
      · have hs : ¬ Text.startsWith (key a) start = true := by
          rw [Text.startsWith_iff]
          exact fun hp => Text.not_lt_of_isPrefix hp (String.lt_iff.mp hlt)
        rw [List.dropWhile_cons, if_pos (decide_eq_true hlt), List.filter_cons, if_neg hs]
        exact takeWhile_dropWhile_startsWith key start l (List.pairwise_cons.mp hl).2
      · rw [List.dropWhile_cons, if_neg (by rwa [decide_eq_true_eq])]
        refine takeWhile_startsWith key start (a :: l) hl ?_
        intro b hb
        rcases List.mem_cons.mp hb with rfl | hb
        · exact hlt
        · exact fun h => hlt (lt_trans ((List.pairwise_cons.mp hl).1 b hb) h)

namespace Overlay

/-! ## Well-formed overlays -/

/-- **The invariant of the overlay**: its paths are numbered by the nodes. -/
abbrev WellFormed (overlay : Overlay) : Prop := Numbering overlay.paths overlay.nodes.size

theorem wellFormed_none : none.WellFormed := Numbering.empty

theorem insert_of_some {overlay : Overlay} {path : String} {id : Nat}
    (h : overlay.paths[path]? = some id) (node : Node) :
    overlay.insert path node = { overlay with nodes := overlay.nodes.setIfInBounds id node } := by
  unfold Overlay.insert
  simp only [h]

theorem insert_of_none {overlay : Overlay} {path : String}
    (h : overlay.paths[path]? = Option.none) (node : Node) :
    overlay.insert path node
      = { nodes := overlay.nodes.push node
          paths := overlay.paths.insert path overlay.nodes.size } := by
  unfold Overlay.insert
  simp only [h]

theorem WellFormed.insert {overlay : Overlay} (h : overlay.WellFormed) {path : String}
    (hp : Path.IsCanonical path) (node : Node) : (overlay.insert path node).WellFormed := by
  cases hid : overlay.paths[path]? with
  | some id =>
      rw [insert_of_some hid]
      show Numbering overlay.paths (overlay.nodes.setIfInBounds id node).size
      rwa [Array.size_setIfInBounds]
  | none =>
      rw [insert_of_none hid]
      show Numbering _ (overlay.nodes.push node).size
      rw [Array.size_push]
      exact Numbering.insert h hp hid

/-- **The node at each path after a write**: the new node at the path written, and what was
there before everywhere else. -/
theorem WellFormed.node?_insert {overlay : Overlay} (h : overlay.WellFormed) (path : String)
    (node : Node) (q : String) :
    (overlay.insert path node).node? q = if q = path then some node else overlay.node? q := by
  cases hid : overlay.paths[path]? with
  | some id =>
      rw [insert_of_some hid]
      show (overlay.paths[q]?).bind (fun i => (overlay.nodes.setIfInBounds id node)[i]?) = _
      split_ifs with hq
      · rw [hq, hid]
        simp [h.lt_count hid]
      · rw [node?]
        cases hqid : overlay.paths[q]? with
        | none => rfl
        | some i =>
            have hne : id ≠ i := fun heq => hq (h.inj hqid (heq ▸ hid))
            simp [Array.getElem?_setIfInBounds_ne hne]
  | none =>
      rw [insert_of_none hid]
      show ((overlay.paths.insert path overlay.nodes.size)[q]?).bind
        (fun i => (overlay.nodes.push node)[i]?) = _
      rw [getElem?_insert_string]
      split_ifs with hq
      · simp
      · rw [node?]
        cases hqid : overlay.paths[q]? with
        | none => rfl
        | some i => simp [Array.getElem?_push, Nat.ne_of_lt (h.lt_count hqid)]

theorem WellFormed.isSome_node? {overlay : Overlay} (h : overlay.WellFormed) (path : String) :
    (overlay.node? path).isSome = (overlay.paths[path]?).isSome := by
  rw [node?]
  cases hid : overlay.paths[path]? with
  | none => rfl
  | some id => simp [h.lt_count hid]

/-! ## The children of a folder -/

/-- Whether a path leads to a child of the folder `dir`. -/
def isChild (dir path : String) : Bool :=
  Text.startsWith path (Path.below dir) && isOneBelow (Path.below dir) path

/-- The paths stand in their order. -/
theorem pairwise_lt_toList (overlay : Overlay) :
    overlay.paths.toList.Pairwise fun a b => a.1 < b.1 := by
  refine Std.TreeMap.ordered_keys_toList.imp ?_
  intro a b hab
  exact compareOfLessAndEq_eq_lt.mp hab

/-- **The scan finds what a look at all paths finds.** -/
theorem childrenOf_eq (overlay : Overlay) (dir : String) :
    overlay.childrenOf dir
      = (overlay.paths.toList.filter fun entry => isChild dir entry.1).mergeSort
          fun a b => a.2 ≤ b.2 := by
  rw [childrenOf]
  simp only [takeWhile_dropWhile_startsWith Prod.fst (Path.below dir) _ overlay.pairwise_lt_toList,
    List.filter_filter, isChild, Bool.and_comm]

/-- The path below a folder ends with a `/`. -/
theorem exists_toList_below (dir : String) :
    ∃ cs, (Path.below dir).toList = cs ++ ['/'] := by
  unfold Path.below
  split_ifs
  · exact ⟨[], rfl⟩
  · exact ⟨dir.toList, by rw [String.toList_append]; rfl⟩

/-- **The children of a folder are the paths with one more name.** -/
theorem isChild_iff {dir path : String} (hp : Path.IsCanonical path) :
    isChild dir path = true ↔ ∃ name, Path.isName name = true ∧ path = Path.child dir name := by
  rw [isChild, Bool.and_eq_true, Text.startsWith_iff, isOneBelow]
  obtain ⟨cs, hcs⟩ := exists_toList_below dir
  constructor
  · rintro ⟨⟨rest, hrest⟩, hone⟩
    simp only [← hrest, List.drop_left, Bool.and_eq_true, Bool.not_eq_true', List.isEmpty_eq_false_iff,
      List.contains_eq_mem, decide_eq_false_iff_not] at hone
    obtain ⟨hne, hslash⟩ := hone
    have hpath : path.toList = cs ++ '/' :: rest := by
      rw [← hrest, hcs, List.append_assoc]
      rfl
    rcases hp.eq_root_or_child with rfl | ⟨d, name, hd, hn, rfl⟩
    · have hlen := congrArg List.length hpath
      have hpos := List.length_pos_iff.mpr hne
      simp [Path.root] at hlen
      omega
    · -- the last segment of the path is both `name` and `rest`
      obtain ⟨ds, hds⟩ := exists_toList_below d
      have hchild : (Path.child d name).toList = ds ++ '/' :: name.toList := by
        rw [Path.child, String.toList_append, hds, List.append_assoc]
        rfl
      have hrestname : name.toList = rest := by
        rw [← Path.takeWhile_reverse_slash ds (Path.slash_not_mem_of_isName hn), ← hchild, hpath,
          Path.takeWhile_reverse_slash cs hslash]
      refine ⟨name, hn, ?_⟩
      rw [← String.toList_inj, ← hrest, Path.child, String.toList_append, hrestname]
  · rintro ⟨name, hn, rfl⟩
    have hchild : (Path.child dir name).toList = (Path.below dir).toList ++ name.toList := by
      rw [Path.child, String.toList_append]
    rw [hchild]
    refine ⟨List.prefix_append _ _, ?_⟩
    simp only [List.drop_left, Bool.and_eq_true, Bool.not_eq_true', List.isEmpty_eq_false_iff,
      List.contains_eq_mem, decide_eq_false_iff_not]
    exact ⟨Path.toList_ne_nil_of_isName hn, Path.slash_not_mem_of_isName hn⟩

/-- The folder of a path is the one along all names but the last. -/
theorem isChild_ofNames {q names : List String} (hq : Path.AllNames q) (hn : Path.AllNames names)
    {name : String} (hname : Path.isName name = true) :
    isChild (Path.ofNames q) (Path.ofNames (names ++ [name])) = true ↔ q = names := by
  have hall := Path.allNames_concat.mpr ⟨hn, hname⟩
  rw [isChild_iff (Path.isCanonical_ofNames hall)]
  constructor
  · rintro ⟨n, hnm, heq⟩
    rw [Path.child_ofNames hq, Path.ofNames_inj hall (Path.allNames_concat.mpr ⟨hq, hnm⟩)] at heq
    exact (List.append_inj' heq rfl).1.symm
  · rintro rfl
    exact ⟨name, hname, (Path.child_ofNames hq name).symm⟩

theorem mem_childrenOf {overlay : Overlay} {dir path : String} {id : Nat} :
    (path, id) ∈ overlay.childrenOf dir
      ↔ overlay.paths[path]? = some id ∧ isChild dir path = true := by
  rw [childrenOf_eq, (List.mergeSort_perm _ _).mem_iff, List.mem_filter,
    Std.TreeMap.mem_toList_iff_getElem?_eq_some]

/-- The children of a folder stand in the order of their numbers. -/
theorem pairwise_childrenOf (overlay : Overlay) (dir : String) :
    (overlay.childrenOf dir).Pairwise fun a b => decide (a.2 ≤ b.2) = true := by
  rw [childrenOf_eq]
  refine List.pairwise_mergeSort ?_ ?_ _
  · intro a b c hab hbc
    simp only [decide_eq_true_eq] at *
    omega
  · intro a b
    simp only [Bool.or_eq_true, decide_eq_true_eq]
    omega

theorem childrenOf_insert_of_some {overlay : Overlay} {path : String} {id : Nat}
    (h : overlay.paths[path]? = some id) (node : Node) (dir : String) :
    (overlay.insert path node).childrenOf dir = overlay.childrenOf dir := by
  rw [childrenOf_eq, childrenOf_eq, insert_of_some h]

/-- Sorting by numbers that differ gives the one list of the same entries that is in order. -/
theorem mergeSort_eq_of_perm {l l' : List (String × Nat)} (hp : l.Perm l')
    (hs : l'.Pairwise fun a b => decide (a.2 ≤ b.2) = true)
    (hinj : ∀ a ∈ l', ∀ b ∈ l', a.2 = b.2 → a = b) :
    l.mergeSort (fun a b => decide (a.2 ≤ b.2)) = l' := by
  have hsort := List.mergeSort_perm l fun a b => decide (a.2 ≤ b.2)
  refine List.Perm.eq_of_pairwise ?_ (List.pairwise_mergeSort ?_ ?_ l) hs (hsort.trans hp)
  · intro a b ha hb hab hba
    simp only [decide_eq_true_eq] at hab hba
    exact hinj a ((hsort.trans hp).mem_iff.mp ha) b hb (Nat.le_antisymm hab hba)
  · intro a b c hab hbc
    simp only [decide_eq_true_eq] at *
    omega
  · intro a b
    simp only [Bool.or_eq_true, decide_eq_true_eq]
    omega

/-- A new path is one more entry. -/
theorem toList_insert_perm {overlay : Overlay} {path : String}
    (h : overlay.paths[path]? = Option.none) (node : Node) :
    (overlay.insert path node).paths.toList.Perm
      ((path, overlay.nodes.size) :: overlay.paths.toList) := by
  have hold : overlay.paths.toList.filter (fun e => decide ¬(path == e.1) = true)
      = overlay.paths.toList := by
    rw [List.filter_eq_self]
    rintro ⟨q, i⟩ he
    rw [Std.TreeMap.mem_toList_iff_getElem?_eq_some] at he
    have hne : path ≠ q := by
      rintro rfl
      rw [h] at he
      cases he
    simpa using hne
  have hins := Std.TreeMap.toList_insert_perm (t := overlay.paths) (k := path)
    (v := overlay.nodes.size)
  rw [insert_of_none h]
  rwa [hold] at hins

/-- **A path that is new comes last among the children of its parent**, and changes the
children of no other folder. -/
theorem WellFormed.childrenOf_insert_of_none {overlay : Overlay} (hw : overlay.WellFormed)
    {path : String} (h : overlay.paths[path]? = Option.none) (node : Node) (dir : String) :
    (overlay.insert path node).childrenOf dir
      = overlay.childrenOf dir
        ++ if isChild dir path then [(path, overlay.nodes.size)] else [] := by
  have hlt : ∀ e ∈ overlay.childrenOf dir, e.2 < overlay.nodes.size := by
    rintro ⟨q, i⟩ he
    exact hw.lt_count (mem_childrenOf.mp he).1
  have hnew : ∀ e ∈ (if isChild dir path then [(path, overlay.nodes.size)] else []),
      e = (path, overlay.nodes.size) := by
    intro e he
    split_ifs at he
    · exact List.mem_singleton.mp he
    · cases he
  rw [childrenOf_eq (overlay.insert path node)]
  refine mergeSort_eq_of_perm ?_ ?_ ?_
  · refine ((toList_insert_perm h node).filter _).trans ?_
    have hsort := List.mergeSort_perm (overlay.paths.toList.filter fun e => isChild dir e.1)
      fun a b => decide (a.2 ≤ b.2)
    rw [← childrenOf_eq] at hsort
    rw [List.filter_cons]
    split_ifs
    · exact (hsort.symm.cons _).trans (List.perm_append_singleton _ _).symm
    · rw [List.append_nil]
      exact hsort.symm
  · rw [List.pairwise_append]
    refine ⟨pairwise_childrenOf overlay dir, ?_, ?_⟩
    · split_ifs <;> simp
    · intro a ha b hb
      rw [hnew b hb]
      exact decide_eq_true (hlt a ha).le
  · intro a ha b hb hab
    rcases List.mem_append.mp ha with ha | ha <;> rcases List.mem_append.mp hb with hb | hb
    · have hpa := (mem_childrenOf.mp ha).1
      have hpb := (mem_childrenOf.mp hb).1
      exact Prod.ext (hw.inj hpa (hab ▸ hpb)) hab
    · have := hlt a ha
      rw [hab, hnew b hb] at this
      exact absurd this (lt_irrefl _)
    · have := hlt b hb
      rw [← hab, hnew a ha] at this
      exact absurd this (lt_irrefl _)
    · rw [hnew a ha, hnew b hb]

end Overlay

end PocketShell
