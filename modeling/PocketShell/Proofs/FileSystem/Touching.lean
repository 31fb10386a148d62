import PocketShell.Proofs.FileSystem.Lines
import PocketShell.Proofs.FileSystem.Listing
import PocketShell.Proofs.FileSystem.Searching

set_option autoImplicit false

/-! # Touching is seen in one time only

A node that is touched may come from the base, and is then copied into the overlay without what it
holds. Whatever store it comes from, the state after it is the state before but for the time of the
last change of one node (`Retimed`): every look-up and every list of children is that of before,
with this time set. Names, kinds and sizes are the same, so the order of listings is, and with it
all that is drawn or found; rows of a listing differ only where they show the node
(`touch_invisible`).
-/

namespace PocketShell

open PocketShell.Path (AllNames ofNames)

namespace FileSystem

/-! ## A state with another time at one path -/

/-- The node at `place` once what is at `path` was last changed at `time`. -/
def retime (path : String) (time : Nat) (place : String) (node : Node) : Node :=
  if place = path then { node with modified := some time } else node

theorem retime_of_ne {path place : String} (hne : place ≠ path) (time : Nat) (node : Node) :
    retime path time place node = node := if_neg hne

section

variable (path : String) (time : Nat) (place : String) (node : Node)

theorem retime_self : retime path time path node = { node with modified := some time } := if_pos rfl

@[simp] theorem name_retime : (retime path time place node).name = node.name := by
  rw [retime]
  split_ifs <;> rfl

@[simp] theorem kind_retime : (retime path time place node).kind = node.kind := by
  rw [retime]
  split_ifs <;> rfl

@[simp] theorem size_retime : (retime path time place node).size = node.size := by
  rw [retime]
  split_ifs <;> rfl

@[simp] theorem isFolder_retime : (retime path time place node).isFolder = node.isFolder := by
  rw [Node.isFolder, kind_retime, Node.isFolder]

theorem finds_retime (search : Search) :
    search.finds (retime path time place node) = search.finds node := by
  rw [Search.finds, kind_retime, name_retime, Search.finds]

end

/-- A child as it is listed once the node at `path` was last changed at `time`. -/
def retimeEntry (path : String) (time : Nat) (entry : String × Node) : String × Node :=
  (entry.1, retime path time entry.1 entry.2)

theorem listedBefore_retimeEntry (path : String) (time : Nat) (a b : String × Node) :
    listedBefore (retimeEntry path time a) (retimeEntry path time b) = listedBefore a b := by
  simp only [listedBefore, retimeEntry, isFolder_retime, name_retime]

/-- **One time is new**: the later state is the earlier one, with the node at `path` last changed at
`time`. -/
structure Retimed (fs later : FileSystem) (path : String) (time : Nat) : Prop where
  lookup_eq : ∀ place, later.lookup place = (fs.lookup place).map (retime path time place)
  children_eq : ∀ dir, later.children dir = (fs.children dir).map (retimeEntry path time)
  cwd_eq : later.cwd = fs.cwd
  owner_eq : later.owner = fs.owner

variable {fs later : FileSystem} {path : String} {time : Nat}

/-- **Touching a node that exists gives it a new time**, and does nothing else. -/
theorem WellFormed.retimed_touch (h : fs.WellFormed) {input : String} {node : Node}
    (hnode : fs.lookup (fs.resolve input) = some node) :
    (fs.touch input).1 = .ok .updated ∧
      fs.Retimed (fs.touch input).2 (fs.resolve input) fs.clock := by
  have hwrites := fs.onlyWrites_touch input
  have htick : fs.tick.lookup (fs.resolve input) = some node := by rwa [lookup_tick]
  have htouch : fs.touch input = (.ok .updated,
      fs.tick.put (fs.resolve input) { node with modified := some fs.clock }) := by
    rw [touch_eq, hnode]
  refine ⟨by rw [htouch], fun place => ?_, fun dir => ?_, hwrites.cwd_eq, hwrites.owner_eq⟩
  · by_cases hplace : place = fs.resolve input
    · rw [htouch, h.tick.lookup_put, if_pos hplace, hplace, hnode, Option.map_some, retime_self]
    · have hsame : retime (fs.resolve input) fs.clock place = id :=
        funext (retime_of_ne hplace fs.clock)
      rw [h.lookup_touch input hplace, hsame, Option.map_id_fun, id]
  · rw [htouch, h.tick.children_put_of_some htick, children_tick]
    refine List.map_congr_left ?_
    rintro ⟨place, child⟩ hchild
    rw [retimeEntry]
    split_ifs with hplace
    · -- what is listed at the path is the node
      have hlookup := h.lookup_of_mem_children hchild
      dsimp only at hplace ⊢
      rw [hplace, hnode] at hlookup
      rw [hplace, retime_self, Option.some.inj hlookup]
    · exact congrArg _ (retime_of_ne hplace _ child).symm

namespace Retimed

theorem resolve_eq (h : fs.Retimed later path time) (input : String) :
    later.resolve input = fs.resolve input := resolve_of_cwd_eq h.cwd_eq input

theorem isSome_lookup (h : fs.Retimed later path time) (place : String) :
    (later.lookup place).isSome = (fs.lookup place).isSome := by
  rw [h.lookup_eq, Option.isSome_map]

theorem sortedChildren_eq (h : fs.Retimed later path time) (dir : String) :
    later.sortedChildren dir = (fs.sortedChildren dir).map (retimeEntry path time) := by
  rw [sortedChildren, h.children_eq, sortedChildren]
  exact (List.map_mergeSort fun a _ b _ => (listedBefore_retimeEntry path time a b).symm).symm

/-! ## What is drawn -/

theorem drawSiblings_retimeEntry (path : String) (time : Nat)
    (rowsBelow : String → String → List DrawnRow) (indent : String)
    (siblings : List (String × Node)) :
    drawSiblings rowsBelow indent (siblings.map (retimeEntry path time))
      = drawSiblings rowsBelow indent siblings := by
  induction siblings with
  | nil => rfl
  | cons child rest ih =>
      rw [List.map_cons, retimeEntry, drawSiblings, ih, drawSiblings, List.isEmpty_map]
      simp only [name_retime, kind_retime, isFolder_retime]

theorem drawRows_eq (h : fs.Retimed later path time) (depth : Nat) (dir indent : String) :
    later.drawRows depth dir indent = fs.drawRows depth dir indent := by
  induction depth generalizing dir indent with
  | zero => rfl
  | succ depth ih =>
      have hbelow : later.drawRows depth = fs.drawRows depth := funext₂ ih
      rw [drawRows, hbelow, h.sortedChildren_eq, drawSiblings_retimeEntry, drawRows]

/-- **Everything is drawn as before.** -/
theorem draw_eq (h : fs.Retimed later path time) (start : String) (depth : Nat) :
    later.draw start depth = fs.draw start depth := by
  have hrequire : later.requireFolder (fs.resolve start)
      = (fs.requireFolder (fs.resolve start)).map (retime path time (fs.resolve start)) := by
    rw [requireFolder, requireFolder, h.lookup_eq]
    cases fs.lookup (fs.resolve start) with
    | none => rfl
    | some node =>
        rw [Option.map_some]
        simp only [isFolder_retime]
        split_ifs <;> rfl
  simp only [draw, h.resolve_eq, hrequire, h.drawRows_eq]
  cases fs.requireFolder (fs.resolve start) <;> rfl

/-! ## What is found -/

theorem found_eq (h : fs.Retimed later path time) (search : Search) (depth : Nat)
    (entry : String × Node) :
    later.found search depth (retimeEntry path time entry) = fs.found search depth entry := by
  induction depth generalizing entry with
  | zero => rw [found, found, nodesBelow_zero, nodesBelow_zero]
  | succ depth ih =>
      by_cases hfolder : entry.2.isFolder = true
      · rw [found_succ _ _ _ ((isFolder_retime _ _ _ _).trans hfolder), found_succ _ _ _ hfolder]
        show (later.children entry.1).flatMap _ = _
        rw [h.children_eq, List.flatMap_map]
        refine List.flatMap_congr fun child _ => ?_
        rw [ih]
        simp only [retimeEntry, finds_retime]
      · rw [found_of_file _ _ _ hfolder, found_of_file]
        rwa [retimeEntry, isFolder_retime]

/-- **Everything is found as before**, also if the state has got more nodes to count. -/
theorem find_eq (h : fs.Retimed later path time) (hlisted : fs.Listed) (hlater : later.Listed)
    (start : String) (search : Search) : later.find start search = fs.find start search := by
  cases hnode : fs.lookup (fs.resolve start) with
  | none =>
      have hnone : later.lookup (fs.resolve start) = none := by
        rw [h.lookup_eq, hnode, Option.map_none]
      simp only [find, h.resolve_eq, require, hnode, hnone]
      rfl
  | some node =>
      obtain ⟨names, hn, hresolve⟩ := Path.isCanonical_resolve fs.cwd start
      have hstart : fs.resolve start = ofNames names := hresolve
      have hsome : later.node? start = some (retime path time (fs.resolve start) node) := by
        rw [node?, h.resolve_eq, h.lookup_eq, hnode, Option.map_some]
      rw [FileSystem.find_eq hnode, FileSystem.find_eq hsome, h.resolve_eq]
      refine congrArg _ ((h.found_eq search later.nodeCount (fs.resolve start, node)).trans ?_)
      by_cases hfolder : node.isFolder = true
      · -- both bounds are enough for a search that comes to an end by itself
        have hwithin : fs.Within later.nodeCount names := fun more hmore hs =>
          hlater.within_nodeCount hn more hmore ((h.isSome_lookup _).trans hs)
        rw [hstart]
        exact (hlisted.collects search hn hfolder hwithin).unique
          (hlisted.collects search hn hfolder (hlisted.within_nodeCount hn))
      · rw [found_of_file _ _ _ hfolder, found_of_file _ _ _ hfolder]

end Retimed

end FileSystem

/-! ## What is listed -/

/-- **A row stays as it is**, but for the time, and the long form in which the time is told, if it
is that of the touched node. -/
structure Entry.Stays (row later : Entry) (touched : Prop) (time : Nat) : Prop where
  name : later.name = row.name
  kind : later.kind = row.kind
  size : later.size = row.size
  isSome_long : later.long.isSome = row.long.isSome
  modified : touched → later.modified = some time
  other : ¬ touched → later = row

namespace FileSystem

variable {fs later : FileSystem} {path : String} {time : Nat}

/-- The path of the node that a row shows when `listed` is listed. -/
def rowPath (fs : FileSystem) (listed : String) (row : Entry) : String :=
  if (fs.lookup listed).any Node.isFolder then
    if row.name = "." then listed
    else if row.name = ".." then Path.parent listed
    else Path.child listed row.name
  else listed

namespace Retimed

theorem entry_eq (h : fs.Retimed later path time) (options : ListOptions) (name : String)
    (node : Node) : later.entry options name node = fs.entry options name node := by
  rw [entry, entry, longLine, longLine, h.owner_eq]

theorem entry_stays (h : fs.Retimed later path time) (options : ListOptions)
    (name place : String) (node : Node) :
    (fs.entry options name node).Stays
      (later.entry options name (retime path time place node)) (place = path) time where
  name := rfl
  kind := kind_retime path time place node
  size := size_retime path time place node
  isSome_long := by
    rw [entry, entry]
    dsimp only
    split_ifs
    · rw [Option.isSome_some, Option.isSome_some]
    · rfl
  modified := by
    rintro rfl
    rw [retime_self]
    rfl
  other := fun hplace => by rw [retime_of_ne hplace, h.entry_eq]

/-- The rows for the folder itself and its parent stay. -/
theorem rowsAbove_stay (h : fs.Retimed later path time) (options : ListOptions) {dir : String}
    {node : Node} (hnode : fs.lookup dir = some node) (hfolder : node.isFolder = true) :
    List.Forall₂ (fun row row' => row.Stays row' (fs.rowPath dir row = path) time)
      (fs.rowsAbove options dir node)
      (later.rowsAbove options dir (retime path time dir node)) := by
  have hpath : ∀ row, fs.rowPath dir row = if row.name = "." then dir
      else if row.name = ".." then Path.parent dir else Path.child dir row.name := fun row => by
    rw [rowPath, if_pos]
    rwa [hnode]
  rw [rowsAbove, rowsAbove]
  split_ifs
  · refine .cons ?_ ?_
    · rw [hpath]
      exact h.entry_stays options "." dir node
    · rw [h.lookup_eq]
      cases fs.lookup (Path.parent dir) with
      | none => exact .nil
      | some parent =>
          refine .cons ?_ .nil
          rw [hpath]
          exact h.entry_stays options ".." (Path.parent dir) parent
  · exact .nil

/-- The rows of the children stay. -/
theorem childRows_stay (h : fs.Retimed later path time) (hlisted : fs.Listed)
    (options : ListOptions) {names : List String} (hn : AllNames names)
    (hfolder : fs.HasFolder (ofNames names)) :
    List.Forall₂
      (fun row row' => row.Stays row' (fs.rowPath (ofNames names) row = path) time)
      (fs.childRows options (ofNames names)) (later.childRows options (ofNames names)) := by
  rw [childRows, childRows, h.sortedChildren_eq, List.map_map, List.forall₂_map_left_iff,
    List.forall₂_map_right_iff, List.forall₂_same]
  intro child hmem
  obtain ⟨hname, hpath, -⟩ := (hlisted.mem_sortedChildren hn).mp hmem
  obtain ⟨node, hnode, hf⟩ := hfolder
  -- no node is called like one of the two rows above
  have hdots : child.2.name ≠ "." ∧ child.2.name ≠ ".." := by
    constructor <;> (intro heq; rw [heq] at hname; exact absurd hname (by decide))
  have hrow : fs.rowPath (ofNames names) (fs.entry options child.2.name child.2) = child.1 := by
    rw [rowPath, hnode, Option.any_some, if_pos hf, hpath]
    exact (if_neg hdots.1).trans (if_neg hdots.2)
  rw [hrow]
  have hstays := h.entry_stays options child.2.name child.1 child.2
  simpa only [Function.comp_apply, retimeEntry, name_retime] using hstays

/-- **Every listing stays as it is**, row by row, but for rows that show the touched node. -/
theorem list_stays (h : fs.Retimed later path time) (hlisted : fs.Listed) (target : Option String)
    (options : ListOptions) :
    (∀ e, fs.list target options = .error e → later.list target options = .error e) ∧
    ∀ rows, fs.list target options = .ok rows →
      ∃ rows', later.list target options = .ok rows' ∧ List.Forall₂
        (fun row row' => row.Stays row' (fs.rowPath (fs.listedPath target) row = path) time)
        rows rows' := by
  have htarget : later.listedPath target = fs.listedPath target := by
    rw [listedPath, h.cwd_eq, funext h.resolve_eq, listedPath]
  cases hnode : fs.lookup (fs.listedPath target) with
  | none =>
      have hnone : later.lookup (later.listedPath target) = none := by
        rw [htarget, h.lookup_eq, hnode, Option.map_none]
      rw [list_of_none hnode, list_of_none hnone, htarget]
      exact ⟨fun _ herror => herror, fun _ hrows => (by cases hrows)⟩
  | some node =>
      have hsome : later.lookup (later.listedPath target)
          = some (retime path time (fs.listedPath target) node) := by
        rw [htarget, h.lookup_eq, hnode, Option.map_some]
      cases hfolder : node.isFolder with
      | true =>
          obtain ⟨names, hn, hpath⟩ := hlisted.treeClosed.canonical _ _ hnode
          have habove := h.rowsAbove_stay options hnode hfolder
          have hchildren := h.childRows_stay hlisted options hn (hpath ▸ ⟨node, hnode, hfolder⟩)
          rw [← hpath] at hchildren
          rw [list_of_folder hnode hfolder,
            list_of_folder hsome ((isFolder_retime _ _ _ _).trans hfolder), htarget]
          refine ⟨fun _ herror => (by cases herror), ?_⟩
          rintro _ ⟨⟩
          exact ⟨_, rfl, List.rel_append habove hchildren⟩
      | false =>
          have hrow : ∀ row, fs.rowPath (fs.listedPath target) row = fs.listedPath target := by
            intro row
            rw [rowPath, hnode, Option.any_some, hfolder]
            exact if_neg Bool.false_ne_true
          rw [list_of_file hnode hfolder,
            list_of_file hsome ((isFolder_retime _ _ _ _).trans hfolder), htarget]
          refine ⟨fun _ herror => (by cases herror), ?_⟩
          rintro _ ⟨⟩
          refine ⟨_, rfl, .cons ?_ .nil⟩
          rw [hrow]
          exact h.entry_stays options _ _ node

end Retimed

/-- **Touching is invisible but for one time.** A node that exists is updated, wherever it comes
from: the time of its last change is what the clock shows, and all else that is known of it is the
same. So is every other look-up, everything that is found and everything that is drawn, from any
start and whatever is asked for; and every listing gives the same answer, with the same rows in the
same order, but for the time in rows that show the node. -/
theorem touch_invisible (h : fs.Reachable) {input : String} {node : Node}
    (hnode : fs.node? input = some node) :
    (fs.touch input).1 = .ok .updated ∧
    (∃ touched, (fs.touch input).2.lookup (fs.resolve input) = some touched ∧
      touched.modified = some fs.clock ∧ touched.kind = node.kind ∧
      touched.content = node.content ∧ touched.size = node.size ∧
      touched.created = node.created ∧ touched = { node with modified := touched.modified }) ∧
    (∀ path, path ≠ fs.resolve input → (fs.touch input).2.lookup path = fs.lookup path) ∧
    (∀ start search, (fs.touch input).2.find start search = fs.find start search) ∧
    (∀ start depth, (fs.touch input).2.draw start depth = fs.draw start depth) ∧
    ∀ target options,
      (∀ e, fs.list target options = .error e → (fs.touch input).2.list target options = .error e) ∧
      ∀ rows, fs.list target options = .ok rows →
        ∃ rows', (fs.touch input).2.list target options = .ok rows' ∧
          List.Forall₂ (fun row row' => row.Stays row'
            (fs.rowPath (fs.listedPath target) row = fs.resolve input) fs.clock) rows rows' := by
  have hlater : (fs.touch input).2.Reachable := h.step (.touch input)
  obtain ⟨hanswer, hretimed⟩ := h.listed.wellFormed.retimed_touch hnode
  refine ⟨hanswer, ⟨{ node with modified := some fs.clock }, ?_, rfl, rfl, rfl, rfl, rfl, rfl⟩,
    fun path hpath => h.listed.wellFormed.lookup_touch input hpath,
    hretimed.find_eq h.listed hlater.listed, hretimed.draw_eq, hretimed.list_stays h.listed⟩
  have hlookup : fs.lookup (fs.resolve input) = some node := hnode
  rw [hretimed.lookup_eq, hlookup, Option.map_some, retime_self]

/-- A folder of the base, with a size of its own and no time, that has got a folder besides the file
that came with it. -/
theorem touch_invisible_home :
    let base := (Base.none.addRecord Path.root
      (.folder "" [(TreeRecord.folder "home" [.file "note" ""]).withSize 77])).1
    let start : FileSystem := { base, clock := 7, readings := [9] }
    let state := (start.perform (.makeFolder "home/x" false)).2
    let later := (state.touch "home").2
    state.Reachable ∧ ∃ node touched rows, state.node? "home" = some node ∧ node.modified = none ∧
      later.lookup "/home" = some touched ∧ touched.modified = some 9 ∧ touched.size = 77 ∧
      (later.find "home" {}).toOption = some ["/home/note", "/home/x"] ∧
      later.list none { all := true } = .ok rows ∧
      rows.map Entry.name = [".", "..", "home"] ∧ rows.map Entry.modified = [none, none, some 9] := by
  intro base start state later
  have hrecord : FileSystem.ofRecord
      (.folder "" [(TreeRecord.folder "home" [.file "note" ""]).withSize 77]) = .ok { base } := rfl
  have hstate : state.Reachable := (Reachable.start hrecord "guest" 7 [9]).step _
  have hnode : state.node? "home"
      = some { name := "home", kind := .folder, givenSize := some 77 } := by decide +kernel
  have hresolve : state.resolve "home" = "/home" := by decide +kernel
  have hclock : state.clock = 9 := by decide +kernel
  obtain ⟨-, ⟨touched, hlookup, hmodified, -, -, hsize, -⟩, -, hfind, -, hlist⟩ :=
    touch_invisible hstate hnode
  have hbefore : state.list none { all := true } = .ok
      [⟨".", .folder, 4096, none, none⟩, ⟨"..", .folder, 4096, none, none⟩,
        ⟨"home", .folder, 77, none, none⟩] := by decide +kernel
  obtain ⟨rows, hafter, hstay⟩ := (hlist none { all := true }).2 _ hbefore
  rw [hresolve] at hlookup hstay
  rcases hstay with _ | ⟨hhere, _ | ⟨hparent, _ | ⟨hhome, ⟨⟩⟩⟩⟩
  have hsame := hhere.other (by decide +kernel)
  have hsame' := hparent.other (by decide +kernel)
  refine ⟨hstate, _, touched, _, hnode, rfl, hlookup, hmodified.trans (congrArg some hclock), hsize,
    ?_, hafter, ?_, ?_⟩
  · rw [hfind]
    decide +kernel
  · rw [hsame, hsame', List.map_cons, List.map_cons, List.map_cons, hhome.name, List.map_nil]
  · rw [hsame, hsame', List.map_cons, List.map_cons, List.map_cons,
      hhome.modified (by decide +kernel), hclock, List.map_nil]

end FileSystem

end PocketShell
