import PocketShell.Proofs.FileSystem.Operations
import PocketShell.Proofs.FileSystem.Showing
import PocketShell.Tree.Demo

set_option autoImplicit false

/-! # A file system behaves as one plain tree

`PlainFiles` is a file system without stores: one tree, changed in place. A node that is
touched gets its new time where it stands, and a new node goes to the end of the children of
its parent. The file system over a record gives, operation by operation, the answers of the
plain files that start with the pruned record.

The simulation (`Mirrors`) says that the file system shows the tree of the plain files, and
that both have the same working directories and the same clock. Each operation keeps it and
answers alike (`Mirrors.perform`); a run follows by induction (`Mirrors.run`).
-/

namespace PocketShell

open PocketShell.Path (AllNames ofNames isName)

/-- What a look-up tells of a node apart from its name. -/
def Node.facts (n : Node) : NodeKind × Option String × Nat × Option Nat × Option Nat :=
  (n.kind, n.content, n.size, n.created, n.modified)

/-! ## Plain files -/

/-- A tree with a working directory and a clock. -/
structure PlainFiles where
  tree : TreeRecord
  cwd : String := Path.root
  earlier : List String := []
  clock : Nat := 0
  readings : List Nat := []

namespace PlainFiles

/-- The names on the way to a path, if it is the path along some names. -/
def names? (path : String) : Option (List String) :=
  let names := FileSystem.segmentsOf path
  if ofNames names = path then some names else none

/-- The subtree at a path. -/
def subtree? (plain : PlainFiles) (path : String) : Option TreeRecord :=
  (names? path).bind plain.tree.walk

/-- The node at a path. -/
def lookup (plain : PlainFiles) (path : String) : Option Node :=
  (plain.subtree? path).map TreeRecord.node

/-- The children of the folder `dir` with their paths. -/
def children (plain : PlainFiles) (dir : String) : List (String × Node) :=
  match plain.subtree? dir with
  | none => []
  | some s => s.entries.map fun child => (Path.child dir child.node.name, child.node)

/-- The plain files after the clock has been read. -/
def tick (plain : PlainFiles) : PlainFiles :=
  match plain.readings with
  | [] => plain
  | time :: later => { plain with clock := time, readings := later }

/-- The plain files with the subtree at a path changed by `f`. -/
def amend (plain : PlainFiles) (f : TreeRecord → TreeRecord) (path : String) : PlainFiles :=
  { plain with tree := plain.tree.amend f (FileSystem.segmentsOf path) }

/-- The plain files with a node more, the last child of the parent of its path. -/
def add (plain : PlainFiles) (path : String) (node : Node) : PlainFiles :=
  plain.amend (TreeRecord.append (.mk node [])) (Path.parent path)

/-- Makes an empty folder. -/
def addFolder (plain : PlainFiles) (path : String) : PlainFiles :=
  (plain.add path (.newFolder (Path.fileName path) plain.clock)).tick

/-- Goes to the folder that `input` names, or back to the directory that was left last. -/
def changeDirectory (plain : PlainFiles) (input : String) :
    Except FileError String × PlainFiles :=
  if input = "-" then
    match plain.earlier with
    | [] => (.ok plain.cwd, plain)
    | previous :: earlier => (.ok previous, { plain with cwd := previous, earlier })
  else
    let target := if input = "" then Path.root else Path.resolve plain.cwd input
    match plain.lookup target with
    | none => (.error (.notFound target), plain)
    | some node =>
        if node.isFolder then
          (.ok target, { plain with cwd := target, earlier := plain.cwd :: plain.earlier })
        else (.error (.notAFolder target), plain)

/-- Makes each missing folder on the way from `dir` along the given names in turn. -/
def makeFolders (plain : PlainFiles) (dir : String) :
    List String → Except FileError Unit × PlainFiles
  | [] => (.ok (), plain)
  | name :: rest =>
      let path := Path.child dir name
      match plain.lookup path with
      | some node =>
          if node.isFolder then plain.makeFolders path rest
          else (.error (.notAFolder path), plain)
      | none => (plain.addFolder path).makeFolders path rest

/-- Makes the folder that `input` names, with `parents` after the missing folders above it. -/
def makeFolder (plain : PlainFiles) (input : String) (parents : Bool) :
    Except FileError String × PlainFiles :=
  let target := Path.resolve plain.cwd input
  let parent := Path.parent target
  match plain.lookup target, plain.lookup parent with
  | some _, _ => (.error (.alreadyExists target), plain)
  | none, some node =>
      if node.isFolder then (.ok target, plain.addFolder target)
      else (.error (.notAFolder parent), plain)
  | none, none =>
      if parents then
        match plain.makeFolders Path.root (FileSystem.segmentsOf parent) with
        | (.ok (), plain) => (.ok target, plain.addFolder target)
        | (.error e, plain) => (.error e, plain)
      else (.error (.notFound parent), plain)

/-- Stamps the node that `input` names where it stands, or adds an empty file. -/
def touch (plain : PlainFiles) (input : String) : Except FileError Touched × PlainFiles :=
  let target := Path.resolve plain.cwd input
  let parent := Path.parent target
  match plain.lookup target, plain.lookup parent with
  | some _, _ => (.ok .updated, plain.tick.amend (TreeRecord.stamp plain.clock) target)
  | none, some node =>
      if node.isFolder then
        (.ok .created, plain.tick.add target (.newFile (Path.fileName target) plain.clock))
      else (.error (.notAFolder parent), plain.tick)
  | none, none => (.error (.notFound parent), plain.tick)

/-- Performs one operation. -/
def perform (plain : PlainFiles) : FileOperation → FileAnswer × PlainFiles
  | .changeDirectory input => (plain.changeDirectory input).map .path id
  | .makeFolder input parents => (plain.makeFolder input parents).map .path id
  | .touch input => (plain.touch input).map .touched id

/-- Performs the operations one after the other, and gives all answers. -/
def run (plain : PlainFiles) : List FileOperation → List FileAnswer × PlainFiles
  | [] => ([], plain)
  | operation :: rest =>
      let first := plain.perform operation
      let others := first.2.run rest
      (first.1 :: others.1, others.2)

/-! ## Names and paths -/

theorem names?_ofNames {names : List String} (hn : AllNames names) :
    names? (ofNames names) = some names := by
  rw [names?, Path.segmentsOf_ofNames hn]
  exact if_pos rfl

theorem ofNames_of_names? {path : String} {names : List String} (h : names? path = some names) :
    ofNames names = path := by
  rw [names?] at h
  split_ifs at h with heq
  obtain rfl := Option.some.inj h
  exact heq

theorem lookup_ofNames (plain : PlainFiles) {names : List String} (hn : AllNames names) :
    plain.lookup (ofNames names) = (plain.tree.look names).map Prod.fst := by
  rw [lookup, subtree?, names?_ofNames hn, Option.bind_some, TreeRecord.look, Option.map_map]
  rfl

end PlainFiles

/-! ## The simulation -/

/-- **The file system and the plain files agree**: one shows the tree of the other, and both
stand in the same folder at the same time. -/
structure Mirrors (fs : FileSystem) (plain : PlainFiles) : Prop where
  shows : fs.Shows plain.tree
  cwd_eq : fs.cwd = plain.cwd
  earlier_eq : fs.earlier = plain.earlier
  clock_eq : fs.clock = plain.clock
  readings_eq : fs.readings = plain.readings

/-- **Both sides answer alike**, and agree afterwards. -/
structure Alike {α : Type} (x : α × FileSystem) (y : α × PlainFiles) : Prop where
  answer : x.1 = y.1
  mirrors : Mirrors x.2 y.2

theorem Mirrors.alike {fs : FileSystem} {plain : PlainFiles} (h : Mirrors fs plain) {α : Type}
    (answer : α) : Alike (answer, fs) (answer, plain) := ⟨rfl, h⟩

theorem Alike.map {α β : Type} {x : α × FileSystem} {y : α × PlainFiles} (h : Alike x y)
    (f : α → β) : Alike (x.map f id) (y.map f id) :=
  ⟨congrArg f h.answer, h.mirrors⟩

namespace Mirrors

variable {fs : FileSystem} {plain : PlainFiles}

/-- Look-ups agree at every text, also at one that is no canonical path. -/
theorem lookup_eq (h : Mirrors fs plain) (path : String) :
    fs.lookup path = (plain.lookup path).map fun n => n.namedAt path := by
  by_cases hp : Path.IsCanonical path
  · obtain ⟨names, hn, rfl⟩ := hp
    rw [h.shows.lookup_eq names hn, plain.lookup_ofNames hn, Option.map_map]
    rfl
  · have hfs : fs.lookup path = none := by
      rw [← Option.not_isSome_iff_eq_none]
      exact fun hs => hp (h.shows.wellFormed.isCanonical hs)
    -- a walk that reaches a node goes along proper names
    have hplain : plain.subtree? path = none := by
      rw [← Option.not_isSome_iff_eq_none]
      intro hs
      obtain ⟨s, hs⟩ := Option.isSome_iff_exists.mp hs
      obtain ⟨names, hnames, hw⟩ := Option.bind_eq_some_iff.mp hs
      have hn := h.shows.proper names (by rw [hw]; rfl)
      exact hp ⟨names, hn, (PlainFiles.ofNames_of_names? hnames).symm⟩
    rw [hfs, PlainFiles.lookup, hplain]
    rfl

theorem hasFolder (h : Mirrors fs plain) {path : String} {node : Node}
    (hl : plain.lookup path = some node) (hf : node.isFolder = true) : fs.HasFolder path := by
  refine ⟨node.namedAt path, ?_, ?_⟩
  · rw [h.lookup_eq, hl, Option.map_some]
  · rw [Node.isFolder_namedAt, hf]

theorem children_eq (h : Mirrors fs plain) {dir : String} (hd : (fs.lookup dir).isSome = true) :
    fs.children dir = plain.children dir := by
  obtain ⟨names, hn, rfl⟩ := h.shows.wellFormed.isCanonical hd
  rw [h.shows.children_eq names hn, PlainFiles.children, PlainFiles.subtree?,
    PlainFiles.names?_ofNames hn, Option.bind_some, TreeRecord.look]
  cases plain.tree.walk names with
  | none => rfl
  | some s =>
      show (s.entries.map _).map _ = s.entries.map _
      rw [List.map_map]
      refine List.map_congr_left fun child _ => ?_
      rw [Path.child_ofNames hn]
      rfl

theorem resolve_eq (h : Mirrors fs plain) (input : String) :
    fs.resolve input = Path.resolve plain.cwd input := by
  rw [FileSystem.resolve, h.cwd_eq]

/-- Both read the same clock. -/
theorem tick (h : Mirrors fs plain) : Mirrors fs.tick plain.tick := by
  have hr := h.readings_eq
  cases hp : plain.readings with
  | nil =>
      rw [hp] at hr
      simp only [FileSystem.tick, PlainFiles.tick, hr, hp]
      exact h
  | cons time later =>
      rw [hp] at hr
      simp only [FileSystem.tick, PlainFiles.tick, hr, hp]
      exact ⟨h.shows.congr rfl rfl, h.cwd_eq, h.earlier_eq, rfl, rfl⟩

/-- A write on both sides keeps all but the tree. -/
theorem write (h : Mirrors fs plain) {path : String} {node : Node} {tree : TreeRecord}
    (hs : (fs.put path node).Shows tree) : Mirrors (fs.put path node) { plain with tree } :=
  ⟨hs, h.cwd_eq, h.earlier_eq, h.clock_eq, h.readings_eq⟩

/-- Touching a node is a stamp in place. -/
theorem stamp (h : Mirrors fs plain) {path : String} {node : Node}
    (hnode : fs.lookup path = some node) (now : Nat) :
    Mirrors (fs.put path (node.stamped now)) (plain.amend (TreeRecord.stamp now) path) := by
  obtain ⟨names, hn, rfl⟩ := h.shows.wellFormed.isCanonical (by rw [hnode]; rfl)
  rw [PlainFiles.amend, Path.segmentsOf_ofNames hn]
  exact h.write (h.shows.refresh hn hnode now)

/-- A new node goes to the end of the children of its parent. -/
theorem add (h : Mirrors fs plain) {path : String} (hp : Path.IsCanonical path)
    (hnew : fs.lookup path = none) (hfolder : fs.HasFolder (Path.parent path)) {node : Node} (hname : node.name = Path.fileName path) :
    Mirrors (fs.put path node) (plain.add path node) := by
  rcases hp.eq_root_or_child with rfl | ⟨dir, name, ⟨names, hn, rfl⟩, hnm, rfl⟩
  · obtain ⟨folder, hfolder, -⟩ := hfolder
    rw [Path.parent_root, hnew] at hfolder
    cases hfolder
  · rw [Path.child_ofNames hn] at hnew hfolder hname ⊢
    rw [Path.parent_ofNames hn hnm] at hfolder
    rw [Path.fileName_ofNames names hnm] at hname
    subst hname
    rw [PlainFiles.add, PlainFiles.amend, Path.parent_ofNames hn hnm, Path.segmentsOf_ofNames hn]
    exact h.write (h.shows.create hn hnm hnew hfolder)

/-- Making a folder, stamped with the present time. -/
theorem addFolder (h : Mirrors fs plain) {path : String} (hp : Path.IsCanonical path)
    (hnew : fs.lookup path = none) (hfolder : fs.HasFolder (Path.parent path)) :
    Mirrors (fs.put path (.newFolder (Path.fileName path) fs.clock)).tick
      (plain.addFolder path) := by
  rw [PlainFiles.addFolder, ← h.clock_eq]
  exact (h.add hp hnew hfolder rfl).tick

/-! ## The operations -/

theorem changeDirectory (h : Mirrors fs plain) (input : String) :
    Alike (fs.changeDirectory input) (plain.changeDirectory input) := by
  by_cases hback : input = "-"
  · simp only [FileSystem.changeDirectory, PlainFiles.changeDirectory, if_pos hback, h.earlier_eq,
      h.cwd_eq]
    cases plain.earlier with
    | nil => exact h.alike _
    | cons previous earlier =>
        exact ⟨rfl, h.shows.congr rfl rfl, rfl, rfl, h.clock_eq, h.readings_eq⟩
  · simp only [FileSystem.changeDirectory, PlainFiles.changeDirectory, if_neg hback, h.resolve_eq,
      FileSystem.requireFolder, h.lookup_eq]
    generalize (if input = "" then Path.root else Path.resolve plain.cwd input) = target
    cases plain.lookup target with
    | none => exact h.alike _
    | some node =>
        cases hf : node.isFolder with
        | false =>
            simp only [Option.map_some, Node.isFolder_namedAt, hf, Bool.false_eq_true, if_false]
            exact h.alike _
        | true =>
            simp only [Option.map_some, Node.isFolder_namedAt, hf, if_true]
            refine ⟨rfl, h.shows.congr rfl rfl, rfl, ?_, h.clock_eq, h.readings_eq⟩
            show fs.cwd :: fs.earlier = plain.cwd :: plain.earlier
            rw [h.cwd_eq, h.earlier_eq]

/-- Folders are made along a path on both sides, up to the same error. -/
theorem makeFolders (h : Mirrors fs plain) {dir rest : List String} (hd : AllNames dir)
    (hr : AllNames rest) (hfolder : fs.HasFolder (ofNames dir)) :
    Alike (fs.makeFolders (ofNames dir) rest) (plain.makeFolders (ofNames dir) rest) := by
  induction rest generalizing fs plain dir with
  | nil => exact h.alike _
  | cons name rest ih =>
      obtain ⟨hname, hr⟩ := Path.allNames_cons.mp hr
      have hall := Path.allNames_concat.mpr ⟨hd, hname⟩
      have hl := h.lookup_eq (ofNames (dir ++ [name]))
      simp only [FileSystem.makeFolders, PlainFiles.makeFolders, Path.child_ofNames hd]
      cases hp : plain.lookup (ofNames (dir ++ [name])) with
      | some node =>
          rw [hp, Option.map_some] at hl
          cases hf : node.isFolder with
          | true =>
              simp only [hl, Node.isFolder_namedAt, hf, if_true]
              exact ih h hall hr (h.hasFolder hp hf)
          | false =>
              simp only [hl, Node.isFolder_namedAt, hf, Bool.false_eq_true, if_false]
              exact h.alike _
      | none =>
          rw [hp, Option.map_none] at hl
          have hparent : fs.HasFolder (Path.parent (ofNames (dir ++ [name]))) := by
            rwa [Path.parent_ofNames hd hname]
          have hadd := h.addFolder (Path.isCanonical_ofNames hall) hl hparent
          rw [Path.fileName_ofNames dir hname] at hadd
          simp only [hl]
          exact ih hadd hall hr (h.shows.wellFormed.hasFolder_put _ rfl)

/-- The folders above a new path are made on both sides. If that succeeds, the path is still
free, and its parent is a folder. -/
theorem makeFolders_above (h : Mirrors fs plain) {path : String} (hp : Path.IsCanonical path)
    (hnew : fs.lookup path = none) {made : Except FileError Unit × FileSystem}
    (hmade : fs.makeFolders Path.root (FileSystem.segmentsOf (Path.parent path)) = made) :
    Alike made (plain.makeFolders Path.root (FileSystem.segmentsOf (Path.parent path))) ∧
      (made.1 = .ok () → made.2.lookup path = none ∧ made.2.HasFolder (Path.parent path)) := by
  subst hmade
  have hroot := h.shows.hasFolder_root
  have hw := h.shows.wellFormed
  have hfree := hw.lookup_makeFolders_above hp hnew
  obtain ⟨names, hn, hparent⟩ := hp.parent
  rw [hparent, Path.segmentsOf_ofNames hn] at hfree ⊢
  refine ⟨h.makeFolders Path.allNames_nil hn hroot, fun hok => ⟨hfree, ?_⟩⟩
  exact hw.hasFolder_makeFolders Path.allNames_nil hn hroot hok

theorem makeFolder (h : Mirrors fs plain) (input : String) (parents : Bool) :
    Alike (fs.makeFolder input parents) (plain.makeFolder input parents) := by
  have hp := Path.isCanonical_resolve plain.cwd input
  simp only [FileSystem.makeFolder, PlainFiles.makeFolder, h.resolve_eq]
  generalize Path.resolve plain.cwd input = target at hp ⊢
  have hl := h.lookup_eq target
  have hlp := h.lookup_eq (Path.parent target)
  cases hpl : plain.lookup target with
  | some node =>
      rw [hpl, Option.map_some] at hl
      simp only [hl]
      exact h.alike _
  | none =>
      rw [hpl, Option.map_none] at hl
      cases hpp : plain.lookup (Path.parent target) with
      | some node =>
          rw [hpp, Option.map_some] at hlp
          cases hf : node.isFolder with
          | true =>
              simp only [hl, hlp, Node.isFolder_namedAt, hf, if_true]
              exact (h.addFolder hp hl (h.hasFolder hpp hf)).alike _
          | false =>
              simp only [hl, hlp, Node.isFolder_namedAt, hf, Bool.false_eq_true, if_false]
              exact h.alike _
      | none =>
          rw [hpp, Option.map_none] at hlp
          cases parents with
          | false =>
              simp only [hl, hlp, Bool.false_eq_true, if_false]
              exact h.alike _
          | true =>
              simp only [hl, hlp, if_true]
              -- first the folders above are made, then the folder itself in what they leave
              obtain ⟨halike, hafter⟩ := h.makeFolders_above hp hl rfl
              generalize fs.makeFolders Path.root _ = made at halike hafter ⊢
              generalize plain.makeFolders Path.root _ = made' at halike ⊢
              obtain ⟨answer, fs'⟩ := made
              obtain ⟨answer', plain'⟩ := made'
              obtain rfl : answer = answer' := halike.answer
              have h' : Mirrors fs' plain' := halike.mirrors
              cases answer with
              | error e =>
                  dsimp only
                  exact h'.alike _
              | ok _ =>
                  dsimp only
                  obtain ⟨hnew, hfolder⟩ : fs'.lookup target = none ∧ fs'.HasFolder _ := hafter rfl
                  exact (h'.addFolder hp hnew hfolder).alike _

/-- Touching reads the clock on both sides, whatever it answers. -/
theorem touch (h : Mirrors fs plain) (input : String) :
    Alike (fs.touch input) (plain.touch input) := by
  have hp := Path.isCanonical_resolve plain.cwd input
  simp only [FileSystem.touch, PlainFiles.touch, h.resolve_eq, FileSystem.requireFolder,
    FileSystem.lookup_tick, h.clock_eq]
  generalize Path.resolve plain.cwd input = target at hp ⊢
  have hl := h.lookup_eq target
  have hlp := h.lookup_eq (Path.parent target)
  cases hpl : plain.lookup target with
  | some node =>
      rw [hpl, Option.map_some] at hl
      simp only [hl]
      exact (h.tick.stamp (by rw [FileSystem.lookup_tick, hl]) plain.clock).alike _
  | none =>
      rw [hpl, Option.map_none] at hl
      cases hpp : plain.lookup (Path.parent target) with
      | none =>
          rw [hpp, Option.map_none] at hlp
          simp only [hl, hlp]
          exact h.tick.alike _
      | some node =>
          rw [hpp, Option.map_some] at hlp
          cases hf : node.isFolder with
          | true =>
              simp only [hl, hlp, Node.isFolder_namedAt, hf, if_true]
              obtain ⟨folder, hfolder, hkind⟩ := h.hasFolder hpp hf
              refine (h.tick.add hp ?_ ⟨folder, ?_, hkind⟩ rfl).alike _
              · rw [FileSystem.lookup_tick, hl]
              · rw [FileSystem.lookup_tick, hfolder]
          | false =>
              simp only [hl, hlp, Node.isFolder_namedAt, hf, Bool.false_eq_true, if_false]
              exact h.tick.alike _

/-- **One operation** is answered alike and keeps the agreement. -/
theorem perform (h : Mirrors fs plain) (operation : FileOperation) :
    Alike (fs.perform operation) (plain.perform operation) := by
  cases operation with
  | changeDirectory input => exact (h.changeDirectory input).map _
  | makeFolder input parents => exact (h.makeFolder input parents).map _
  | touch input => exact (h.touch input).map _

/-- **A run** is answered alike, and the two sides agree at its end. -/
theorem run (h : Mirrors fs plain) (operations : List FileOperation) :
    Alike (fs.run operations) (plain.run operations) := by
  induction operations generalizing fs plain with
  | nil => exact h.alike _
  | cons operation rest ih =>
      have hone := h.perform operation
      have hrest := ih hone.mirrors
      refine ⟨?_, hrest.mirrors⟩
      show (fs.perform operation).1 :: _ = (plain.perform operation).1 :: _
      rw [hone.answer, hrest.answer]

/-- At the start the plain files are the pruned record. -/
theorem start {record : TreeRecord} {fs : FileSystem} (h : FileSystem.ofRecord record = .ok fs)
    (owner : String) (clock : Nat) (readings : List Nat) :
    Mirrors { fs with owner, clock, readings } { tree := record.prune, clock, readings } := by
  have hshows := FileSystem.shows_ofRecord h
  obtain ⟨base, -, rfl⟩ := FileSystem.exists_of_ofRecord h
  exact ⟨hshows.congr rfl rfl, rfl, rfl, rfl, rfl⟩

end Mirrors

/-! ## The result -/

/-- **The file system over a record is the pruned record, changed in place.** Whatever the
clock shows and whatever is done, both sides give the same answers, then find the same at
every path, and list the same children of every folder in the same order. -/
theorem run_eq_plainFiles {record : TreeRecord} (hroot : record.node.isFolder = true) :
    ∃ fs, FileSystem.ofRecord record = .ok fs ∧
      ∀ (clock : Nat) (readings : List Nat) (operations : List FileOperation),
        let shown := { fs with clock, readings }.run operations
        let plain := PlainFiles.run { tree := record.prune, clock, readings } operations
        shown.1 = plain.1 ∧
        (∀ path, (shown.2.lookup path).map Node.facts = (plain.2.lookup path).map Node.facts) ∧
        ∀ dir, (shown.2.lookup dir).any Node.isFolder = true →
          shown.2.children dir = plain.2.children dir := by
  have hbase : FileSystem.ofRecord record
      = .ok { base := (Base.none.addRecord Path.root record).1 } := by
    rw [FileSystem.ofRecord, Base.ofRecord, if_pos hroot]
    rfl
  refine ⟨_, hbase, fun clock readings operations => ?_⟩
  obtain ⟨hanswers, hmirrors⟩ := (Mirrors.start hbase "guest" clock readings).run operations
  refine ⟨hanswers, fun path => ?_, fun dir hdir => hmirrors.children_eq ?_⟩
  · rw [hmirrors.lookup_eq path, Option.map_map]
    rfl
  · generalize FileSystem.lookup _ dir = found at hdir ⊢
    cases found with
    | none => cases hdir
    | some node => rfl

/-- Two folders made in one go on the demonstration tree, each stamped with a reading of its
own, and a file touched after them. -/
theorem run_demo_eq_plainFiles :
    ∃ fs, FileSystem.ofRecord Demo.tree = .ok fs ∧
      let operations := [FileOperation.makeFolder "tmp/a/b" true, .touch "about.md"]
      let shown := { fs with clock := 7, readings := [8, 9] }.run operations
      let plain := PlainFiles.run { tree := Demo.tree.prune, clock := 7, readings := [8, 9] } operations
      shown.1 = plain.1 ∧
      (∀ path, (shown.2.lookup path).map Node.facts = (plain.2.lookup path).map Node.facts) ∧
      ∀ dir, (shown.2.lookup dir).any Node.isFolder = true →
        shown.2.children dir = plain.2.children dir := by
  obtain ⟨fs, hfs, hrun⟩ := @run_eq_plainFiles Demo.tree rfl
  exact ⟨fs, hfs, hrun 7 [8, 9] _⟩

end PocketShell
