import Mathlib.Data.List.TakeWhile
import PocketShell.Proofs.Checked.Basic
import PocketShell.Proofs.FileSystem.Closure
import PocketShell.Text.Numeral

set_option autoImplicit false

/-! # The stores of files are never asked out of range

A path is taken apart at its last slash, and the children of a folder are found by what follows the
path of the folder; all these cuts are at the ends of characters, whatever the path.

The base and the overlay lead from paths to the numbers of nodes, and a folder of the base holds the
numbers of its children. A number that is too large ends the program. The numbers are in range in
every state of a file system (`FileSystem.Reachable.numbersInRange`): no single write breaks that,
whatever the path (`FileSystem.NumbersInRange.put`), hence no operation does, also in its midst.

With the numbers go the times, because a node that is written bears one of the clock. Where the
record and the clock show only times that fit into a word, all nodes do
(`FileSystem.InRange.perform`).
-/

namespace PocketShell

namespace Checked

/-! ## Parts of a path -/

/-- The folder that holds a path: the path up to its last slash. -/
def parent (path : String) : Option String :=
  match findLast '/' path.toList with
  | none | some 0 => some Path.root
  | some (n + 1) => (upTo path.toList (n + 1)).map String.ofList

/-- The last segment of a path: what follows its last slash. -/
def fileName (path : String) : Option String :=
  match findLast '/' path.toList with
  | none => some path
  | some n => (startingAt path.toList (n + 1)).map String.ofList

theorem ne_slash_of_mem_reverse {cs : List Char} (h : '/' ∉ cs) :
    ∀ c ∈ cs.reverse, decide (c ≠ '/') = true := by
  intro c hc
  have hne : c ≠ '/' := fun heq => h (heq ▸ List.mem_reverse.mp hc)
  exact decide_eq_true hne

theorem parent_eq (path : String) : parent path = some (Path.parent path) := by
  rcases findLast_cases '/' path.toList with ⟨hmem, hfind⟩ | ⟨before, after, hpath, hafter, hfind⟩
  · have hnil := List.dropWhile_eq_nil_iff.mpr (ne_slash_of_mem_reverse hmem)
    rw [parent, hfind, Path.parent, hnil]
  · rw [parent, hfind, Path.parent, hpath, Path.dropWhile_reverse_slash before hafter]
    rcases List.eq_nil_or_concat before with rfl | ⟨front, c, rfl⟩
    · rfl
    · -- there is something before the slash, so its offset is no zero
      obtain ⟨n, hn⟩ : ∃ n, String.utf8Len (front ++ [c]) = n + 1 := by
        have hpos := c.utf8Size_pos
        rw [String.utf8Len_append, String.utf8Len_cons]
        exact ⟨String.utf8Len front + String.utf8Len [] + c.utf8Size - 1, by omega⟩
      rw [List.concat_eq_append, hn]
      dsimp only
      rw [← hn, upTo_append]
      simp

theorem fileName_eq (path : String) : fileName path = some (Path.fileName path) := by
  rcases findLast_cases '/' path.toList with ⟨hmem, hfind⟩ | ⟨before, after, hpath, hafter, hfind⟩
  · have hall := List.takeWhile_eq_self_iff.mpr (ne_slash_of_mem_reverse hmem)
    rw [fileName, hfind, Path.fileName, hall, List.reverse_reverse, String.ofList_toList]
  · rw [fileName, hfind, Path.fileName, hpath, Path.takeWhile_reverse_slash before hafter]
    have hcut := startingAt_append (before ++ ['/']) after
    rw [List.append_assoc, String.utf8Len_append] at hcut
    exact congrArg (Option.map String.ofList) hcut

/-! ## The children of a folder -/

/-- Whether a path, cut off after the bytes of `start`, goes on with exactly one segment. -/
def isOneBelow (start path : String) : Option Bool :=
  (startingAt path.toList (String.utf8Len start.toList)).map fun rest =>
    !rest.isEmpty && !rest.contains '/'

/-- The paths of the children of a folder in an overlay. A path is cut only if it starts with the
path of the folder. -/
def childrenOf (overlay : Overlay) (dir : String) : Option (List (String × Nat)) := do
  let start := Path.below dir
  let stretch :=
    (overlay.paths.toList.dropWhile fun entry => entry.1 < start).takeWhile
      fun entry => Text.startsWith entry.1 start
  let children ← filter (fun entry => isOneBelow start entry.1) stretch
  return children.mergeSort fun a b => a.2 ≤ b.2

theorem isOneBelow_eq {start path : String} (h : Text.startsWith path start = true) :
    isOneBelow start path = some (Overlay.isOneBelow start path) := by
  obtain ⟨rest, hrest⟩ := List.isPrefixOf_iff_prefix.mp h
  rw [isOneBelow, Overlay.isOneBelow, ← hrest, startingAt_append, List.drop_left]
  rfl

theorem childrenOf_eq (overlay : Overlay) (dir : String) :
    childrenOf overlay dir = some (overlay.childrenOf dir) := by
  have hbelow : ∀ entry ∈ (overlay.paths.toList.dropWhile fun entry =>
        entry.1 < Path.below dir).takeWhile fun entry => Text.startsWith entry.1 (Path.below dir),
      isOneBelow (Path.below dir) entry.1 = some (Overlay.isOneBelow (Path.below dir) entry.1) :=
    fun entry hentry => by
      have hstarts := List.mem_takeWhile_imp hentry
      exact isOneBelow_eq hstarts
  rw [childrenOf, filter_eq hbelow]
  rfl

end Checked

/-! ## Numbers of nodes and times -/

/-- The times of the node are among those that fit. -/
structure Node.TimesIn (fits : Nat → Prop) (node : Node) : Prop where
  created : ∀ time, node.created = some time → fits time
  modified : ∀ time, node.modified = some time → fits time

namespace FileSystem

/-- **Each number that a store holds is that of a node**: those that the index of the base gives,
those of the children of a folder, and those that the overlay gives. -/
structure NumbersInRange (fs : FileSystem) : Prop where
  index : ∀ (path : String) (id : Nat), fs.base.index[path]? = some id → id < fs.base.cells.size
  children : ∀ cell ∈ fs.base.cells, ∀ id ∈ cell.children, id < fs.base.cells.size
  paths : ∀ (path : String) (id : Nat),
    fs.overlay.paths[path]? = some id → id < fs.overlay.nodes.size

/-- **Each time is among those that fit**: those of the nodes, and those that the clock shows. -/
structure TimesIn (fits : Nat → Prop) (fs : FileSystem) : Prop where
  supplied : ∀ cell ∈ fs.base.cells, cell.node.TimesIn fits
  made : ∀ node ∈ fs.overlay.nodes, node.TimesIn fits
  clock : fits fs.clock
  readings : ∀ time ∈ fs.readings, fits time

/-- The numbers of nodes and the times are in range. -/
structure InRange (fits : Nat → Prop) (fs : FileSystem) : Prop
  extends fs.NumbersInRange, fs.TimesIn fits

variable {fits : Nat → Prop} {fs : FileSystem}

theorem InRange.overlay (h : fs.InRange fits) {path : String} {node : Node}
    (hnode : fs.overlay.node? path = some node) : node.TimesIn fits := by
  obtain ⟨id, -, hid⟩ := Option.bind_eq_some_iff.mp hnode
  exact h.made node (Array.mem_of_getElem? hid)

theorem InRange.lookup (h : fs.InRange fits) {path : String} {node : Node}
    (hnode : fs.lookup path = some node) : node.TimesIn fits := by
  rw [FileSystem.lookup] at hnode
  split at hnode
  · next heq =>
      obtain rfl := Option.some.inj hnode
      exact h.overlay heq
  · obtain ⟨cell, hcell, rfl⟩ := Option.map_eq_some_iff.mp hnode
    obtain ⟨id, -, hid⟩ := Option.bind_eq_some_iff.mp hcell
    exact h.supplied cell (Array.mem_of_getElem? hid)

/-- The nodes that a listing shows are those of cells, or of the overlay. -/
theorem InRange.of_mem_children (h : fs.InRange fits) {dir : String} {entry : String × Node}
    (hmem : entry ∈ fs.children dir) : entry.2.TimesIn fits := by
  rw [FileSystem.children_eq, List.mem_append] at hmem
  rcases hmem with hsupplied | hmade
  · obtain ⟨node, hnode, rfl⟩ := List.mem_map.mp hsupplied
    have hcell : node.TimesIn fits := by
      rw [Base.childrenOf] at hnode
      split at hnode
      · cases hnode
      · obtain ⟨id, -, hid⟩ := List.mem_filterMap.mp hnode
        obtain ⟨cell, hcell, rfl⟩ := Option.map_eq_some_iff.mp hid
        exact h.supplied cell (Array.mem_of_getElem? hcell)
    show ((fs.overlay.node? (Path.child dir node.name)).getD node).TimesIn fits
    cases hshown : fs.overlay.node? (Path.child dir node.name) with
    | none => exact hcell
    | some shown => exact h.overlay hshown
  · obtain ⟨made, -, hmade⟩ := List.mem_filterMap.mp hmade
    rw [madeEntry] at hmade
    split_ifs at hmade
    obtain ⟨node, hnode, rfl⟩ := Option.map_eq_some_iff.mp hmade
    exact h.overlay hnode

/-! ## What the operations keep in range -/

/-- A path that is written for the first time gets the number of the node that is added. -/
theorem NumbersInRange.put (h : fs.NumbersInRange) (path : String) (node : Node) :
    (fs.put path node).NumbersInRange := by
  refine ⟨h.index, h.children, ?_⟩
  show ∀ (q : String) (id : Nat), (fs.overlay.insert path node).paths[q]? = some id →
    id < (fs.overlay.insert path node).nodes.size
  intro q id hq
  cases hpath : fs.overlay.paths[path]? with
  | some old =>
      rw [Overlay.insert_of_some hpath] at hq ⊢
      rw [Array.size_setIfInBounds]
      exact h.paths q id hq
  | none =>
      rw [Overlay.insert_of_none hpath] at hq ⊢
      rw [Array.size_push]
      rw [getElem?_insert_string] at hq
      split_ifs at hq with hqp
      · have := Option.some.inj hq
        omega
      · have := h.paths q id hq
        omega

theorem InRange.put (h : fs.InRange fits) (path : String) {node : Node}
    (hnode : node.TimesIn fits) : (fs.put path node).InRange fits := by
  refine ⟨h.toNumbersInRange.put path node, h.supplied, ?_, h.clock, h.readings⟩
  show ∀ other ∈ (fs.overlay.insert path node).nodes, other.TimesIn fits
  intro other hother
  cases hpath : fs.overlay.paths[path]? with
  | some id =>
      rw [Overlay.insert_of_some hpath] at hother
      rcases Array.mem_or_eq_of_mem_setIfInBounds hother with hold | rfl
      · exact h.made other hold
      · exact hnode
  | none =>
      rw [Overlay.insert_of_none hpath] at hother
      rcases Array.mem_push.mp hother with hold | rfl
      · exact h.made other hold
      · exact hnode

/-- Writes, one after the other. -/
def putAll (fs : FileSystem) (writes : List (String × Node)) : FileSystem :=
  writes.foldl (fun fs write => fs.put write.1 write.2) fs

theorem InRange.putAll (h : fs.InRange fits) {writes : List (String × Node)}
    (hwrites : ∀ write ∈ writes, write.2.TimesIn fits) : (fs.putAll writes).InRange fits := by
  induction writes generalizing fs with
  | nil => exact h
  | cons write rest ih =>
      obtain ⟨hwrite, hrest⟩ := List.forall_mem_cons.mp hwrites
      exact ih (h.put write.1 hwrite) hrest

theorem InRange.tick (h : fs.InRange fits) : fs.tick.InRange fits := by
  rw [FileSystem.tick]
  split
  · exact h
  · next time later hreadings =>
      have htimes := h.readings
      rw [hreadings] at htimes
      obtain ⟨htime, hlater⟩ := List.forall_mem_cons.mp htimes
      exact ⟨⟨h.index, h.children, h.paths⟩, h.supplied, h.made, htime, hlater⟩

/-- Going to another folder concerns no store. -/
theorem InRange.goTo (h : fs.InRange fits) (cwd : String) (earlier : List String) :
    { fs with cwd, earlier }.InRange fits :=
  ⟨⟨h.index, h.children, h.paths⟩, h.supplied, h.made, h.clock, h.readings⟩

theorem timesIn_newFolder {now : Nat} (h : fits now) (name : String) :
    (Node.newFolder name now).TimesIn fits :=
  ⟨fun _ heq => Option.some.inj heq ▸ h, fun _ heq => Option.some.inj heq ▸ h⟩

theorem timesIn_newFile {now : Nat} (h : fits now) (name : String) :
    (Node.newFile name now).TimesIn fits :=
  ⟨fun _ heq => Option.some.inj heq ▸ h, fun _ heq => Option.some.inj heq ▸ h⟩

theorem InRange.makeFolders (h : fs.InRange fits) (dir : String) (segments : List String) :
    (fs.makeFolders dir segments).2.InRange fits := by
  induction segments generalizing fs dir with
  | nil => exact h
  | cons segment rest ih =>
      simp only [FileSystem.makeFolders]
      split
      · split
        · exact ih h _
        · exact h
      · exact ih (h.put _ (timesIn_newFolder h.clock _)).tick _

theorem InRange.makeFolder (h : fs.InRange fits) (input : String) (parents : Bool) :
    (fs.makeFolder input parents).2.InRange fits := by
  have hfinish : ∀ {fs : FileSystem}, fs.InRange fits → ∀ path name,
      (fs.put path (.newFolder name fs.clock)).tick.InRange fits :=
    fun h path name => (h.put path (timesIn_newFolder h.clock name)).tick
  simp only [FileSystem.makeFolder]
  split
  · exact h
  · split
    · split
      · exact hfinish h _ _
      · exact h
    · split
      · have hmade := h.makeFolders Path.root (segmentsOf (Path.parent (fs.resolve input)))
        split
        · next heq =>
            rw [heq] at hmade
            exact hfinish hmade _ _
        · next heq => rwa [heq] at hmade
      · exact h

theorem InRange.touch (h : fs.InRange fits) (input : String) :
    (fs.touch input).2.InRange fits := by
  simp only [FileSystem.touch]
  split
  · next node hnode =>
      exact h.tick.put _ ⟨(h.tick.lookup hnode).created, fun _ heq => Option.some.inj heq ▸ h.clock⟩
  · split
    · exact h.tick
    · exact h.tick.put _ (timesIn_newFile h.clock _)

theorem InRange.changeDirectory (h : fs.InRange fits) (input : String) :
    (fs.changeDirectory input).2.InRange fits := by
  simp only [FileSystem.changeDirectory]
  split
  · split
    · exact h
    · exact h.goTo _ _
  · split
    · exact h
    · exact h.goTo _ _

/-- **No operation leads out of range**. -/
theorem InRange.perform (h : fs.InRange fits) (operation : FileOperation) :
    (fs.perform operation).2.InRange fits := by
  cases operation with
  | changeDirectory input => exact h.changeDirectory input
  | makeFolder input parents => exact h.makeFolder input parents
  | touch input => exact h.touch input

theorem InRange.run (h : fs.InRange fits) (operations : List FileOperation) :
    (fs.run operations).2.InRange fits := by
  induction operations generalizing fs with
  | nil => exact h
  | cons operation rest ih => exact ih (h.perform operation)

/-! ## Every state -/

/-- Where the index and the cells of a base agree, its numbers are those of cells. -/
theorem numbersInRange_of_indexed {base : Base} (h : base.Indexed) : NumbersInRange { base } := by
  refine ⟨fun path id hid => ?_, fun cell hcell id hid => ?_, fun path id hid => ?_⟩
  · obtain ⟨cell, hcell⟩ := h.cell_at path id hid
    exact (Array.getElem?_eq_some_iff.mp hcell).1
  · obtain ⟨at_, hlt, hat⟩ := Array.mem_iff_getElem.mp hcell
    have hcell : base.cells[at_]? = some cell := Array.getElem?_eq_some_iff.mpr ⟨hlt, hat⟩
    obtain ⟨dir, hdir, -⟩ := h.path_of at_ cell hcell
    obtain ⟨child, hchild, -⟩ := h.child_at dir at_ cell hdir hcell id hid
    exact (Array.getElem?_eq_some_iff.mp hchild).1
  · simp [Overlay.none] at hid

/-- **Every state has its numbers in range.** -/
theorem Reachable.numbersInRange (h : fs.Reachable) : fs.NumbersInRange := by
  -- for the numbers it is no matter what the times are
  have hinRange : fs.InRange fun _ => True := by
    induction h with
    | @start record fs h owner clock readings =>
        have hstart : FileSystem.Reachable { fs with owner, clock, readings } :=
          .start h owner clock readings
        have hindexed := (reachable_treeClosed hstart).2.2
        obtain ⟨base, -, rfl⟩ := exists_of_ofRecord h
        have hbase := numbersInRange_of_indexed hindexed
        have hnode : ∀ node : Node, node.TimesIn fun _ => True :=
          fun _ => ⟨fun _ _ => trivial, fun _ _ => trivial⟩
        exact ⟨⟨hbase.index, hbase.children, hbase.paths⟩, fun _ _ => hnode _, fun _ _ => hnode _,
          trivial, fun _ _ => trivial⟩
    | step _ operation ih => exact ih.perform operation
  exact hinRange.toNumbersInRange

end FileSystem

/-! ## Asking the stores -/

namespace Checked

/-- The node at a path: a number that a store gives has to be that of a node. -/
def lookup (fs : FileSystem) (path : String) : Option (Option Node) :=
  match fs.overlay.paths[path]? with
  | some id => fs.overlay.nodes[id]?.map some
  | none =>
      match fs.base.index[path]? with
      | some id => fs.base.cells[id]?.map fun cell => some cell.node
      | none => some none

/-- The node of the overlay at a path, or else the one that is given. -/
def shown (fs : FileSystem) (path : String) (node : Node) : Option Node :=
  match fs.overlay.paths[path]? with
  | some id => fs.overlay.nodes[id]?
  | none => some node

/-- A child that the base lists, as it is shown. -/
def suppliedChild (fs : FileSystem) (dir : String) (number : Nat) : Option (String × Node) := do
  let cell ← fs.base.cells[number]?
  let path := Path.child dir cell.node.name
  return (path, ← shown fs path cell.node)

/-- A child that the overlay lists, as it is shown. -/
def madeChild (fs : FileSystem) (entry : String × Nat) : Option (String × Node) := do
  return (entry.1, ← fs.overlay.nodes[entry.2]?)

/-- The children of a folder with their paths: those that the base lists, then those that only the
overlay has. -/
def children (fs : FileSystem) (dir : String) : Option (List (String × Node)) := do
  let numbers ← match fs.base.index[dir]? with
    | some id => fs.base.cells[id]?.map BaseCell.children
    | none => some []
  let supplied ← numbers.mapM (suppliedChild fs dir)
  let entries ← childrenOf fs.overlay dir
  let made ← (entries.filter fun entry => !fs.base.index.contains entry.1).mapM (madeChild fs)
  return supplied ++ made

/-- Puts a node at a path: in the place of the one that is there, or as a new one. -/
def insert (overlay : Overlay) (path : String) (node : Node) : Option Overlay :=
  match overlay.paths[path]? with
  | some id => overlay.nodes[id]?.map fun _ =>
      { overlay with nodes := overlay.nodes.setIfInBounds id node }
  | none => some {
      nodes := overlay.nodes.push node
      paths := overlay.paths.insert path overlay.nodes.size }

variable {fs : FileSystem}

theorem lookup_eq (h : fs.NumbersInRange) (path : String) :
    lookup fs path = some (fs.lookup path) := by
  rw [lookup, FileSystem.lookup, Overlay.node?, Base.node?, Base.cell?]
  cases hpath : fs.overlay.paths[path]? with
  | some id =>
      have hlt := h.paths path id hpath
      simp [Array.getElem?_eq_getElem hlt]
  | none =>
      cases hindex : fs.base.index[path]? with
      | some id =>
          have hlt := h.index path id hindex
          simp [Array.getElem?_eq_getElem hlt]
      | none => rfl

theorem shown_eq (h : fs.NumbersInRange) (path : String) (node : Node) :
    shown fs path node = some ((fs.overlay.node? path).getD node) := by
  rw [shown, Overlay.node?]
  cases hpath : fs.overlay.paths[path]? with
  | some id =>
      have hlt := h.paths path id hpath
      simp [Array.getElem?_eq_getElem hlt]
  | none => rfl

theorem suppliedChild_eq (h : fs.NumbersInRange) (dir : String) (number : Nat) :
    suppliedChild fs dir number
      = (fs.base.cells[number]?.map BaseCell.node).map (fs.suppliedEntry dir) := by
  rw [suppliedChild]
  cases fs.base.cells[number]? with
  | none => rfl
  | some cell =>
      show (do return (_, ← shown fs _ cell.node)) = _
      rw [shown_eq h]
      rfl

/-- What the overlay lists is what it shows, as far as the base does not list it too. -/
theorem madeChild_eq {dir : String} {entry : String × Nat}
    (hentry : entry ∈ fs.overlay.childrenOf dir) :
    (if !fs.base.index.contains entry.1 then madeChild fs entry else none)
      = fs.madeEntry entry := by
  have hpath := (Overlay.mem_childrenOf.mp hentry).1
  rw [FileSystem.madeEntry, Overlay.node?, hpath, madeChild]
  cases fs.base.index.contains entry.1 with
  | true => rfl
  | false =>
      rw [if_neg Bool.false_ne_true, Option.bind_some, Option.map_eq_bind]
      rfl

theorem children_eq (h : fs.NumbersInRange) (dir : String) :
    children fs dir = some (fs.children dir) := by
  have hmade : ∀ entry ∈ (fs.overlay.childrenOf dir).filter fun entry =>
      !fs.base.index.contains entry.1, (madeChild fs entry).isSome = true := by
    intro entry hentry
    have hpath := (Overlay.mem_childrenOf.mp (List.mem_filter.mp hentry).1).1
    rw [madeChild, Array.getElem?_eq_getElem (h.paths entry.1 entry.2 hpath)]
    rfl
  -- the numbers that a cell holds are those of cells
  have hsupplied : ∀ cell ∈ fs.base.cells, ∀ number ∈ cell.children,
      (suppliedChild fs dir number).isSome = true := by
    intro cell hcell number hnumber
    rw [suppliedChild_eq h, Array.getElem?_eq_getElem (h.children cell hcell number hnumber)]
    rfl
  rw [FileSystem.children_eq, Base.childrenOf, Base.cell?, children, childrenOf_eq]
  simp only [Option.bind_eq_bind, Option.bind_some, mapM_eq_filterMap hmade,
    List.filterMap_filter, List.filterMap_congr fun entry hentry => madeChild_eq hentry]
  cases hindex : fs.base.index[dir]? with
  | none => rfl
  | some id =>
      have hlt := h.index dir id hindex
      simp only [Array.getElem?_eq_getElem hlt, Option.map_some, Option.bind_some,
        mapM_eq_filterMap (hsupplied _ (Array.getElem_mem hlt)), List.map_filterMap,
        suppliedChild_eq h, Option.pure_def]

theorem insert_eq (h : fs.NumbersInRange) (path : String) (node : Node) :
    insert fs.overlay path node = some (fs.overlay.insert path node) := by
  cases hpath : fs.overlay.paths[path]? with
  | some id =>
      have hlt := h.paths path id hpath
      rw [insert, hpath, Overlay.insert_of_some hpath]
      simp only [Array.getElem?_eq_getElem hlt, Option.map_some]
  | none => rw [insert, hpath, Overlay.insert_of_none hpath]

/-- **The stores answer**: their numbers are those of nodes, so every path can be looked up, every
folder listed and every node put. The times of all nodes that are found are held in words. -/
structure FilesInRange (fs : FileSystem) : Prop where
  numbers : fs.NumbersInRange
  lookup : ∀ path, lookup fs path = some (fs.lookup path)
  children : ∀ dir, children fs dir = some (fs.children dir)
  insert : ∀ path node, insert fs.overlay path node = some (fs.overlay.insert path node)
  found : ∀ path node, fs.lookup path = some node → node.TimesIn (· ≤ Text.maxWord)
  listed : ∀ dir, ∀ entry ∈ fs.children dir, entry.2.TimesIn (· ≤ Text.maxWord)

theorem filesInRange (h : fs.InRange (· ≤ Text.maxWord)) : FilesInRange fs where
  numbers := h.toNumbersInRange
  lookup := lookup_eq h.toNumbersInRange
  children := children_eq h.toNumbersInRange
  insert := insert_eq h.toNumbersInRange
  found _ _ := h.lookup
  listed _ _ := h.of_mem_children

end Checked

end PocketShell
