import PocketShell.Proofs.FileSystem.Closure
import PocketShell.Proofs.Path.Way

set_option autoImplicit false

/-! # Making a folder is all or nothing

A folder made with its parents is made segment by segment, and a file on the way ends the work
with an error. That nothing has been made by then is no check of the code: it follows from the
existing paths forming a tree. Once a path of the way is missing, all paths after it are missing
too (`TreeClosed.eq_none_of_prefix`), so no file can stand behind the first folder that is made.

`FileSystem.missing` lists the paths of the way that do not exist, and `FileSystem.addFolders`
puts an empty folder at each path of a list. Making a folder either fails and changes nothing, or
adds the missing folders (`makeFolder_cases`); what that changes is told by `FoldersAdded`.
-/

namespace PocketShell

open PocketShell.Path (AllNames ofNames isName)

/-- **Below a missing path nothing exists.** -/
theorem TreeClosed.eq_none_of_prefix {nodeAt : String → Option Node} (h : TreeClosed nodeAt)
    {above names : List String} (hn : AllNames names) (hp : above <+: names)
    (hmissing : nodeAt (ofNames above) = none) : nodeAt (ofNames names) = none := by
  obtain ⟨rest, rfl⟩ := hp
  induction rest using List.reverseRecOn with
  | nil => rwa [List.append_nil]
  | append_singleton rest name ih =>
      rw [← List.append_assoc] at hn ⊢
      obtain ⟨ha, hname⟩ := Path.allNames_concat.mp hn
      by_contra hne
      obtain ⟨node, hnode⟩ := Option.ne_none_iff_exists'.mp hne
      obtain ⟨folder, hfolder, -⟩ := h.parent _ _ hnode (Path.ofNames_ne_root hn (by simp))
      rw [Path.parent_ofNames ha hname, ih ha] at hfolder
      cases hfolder

/-- Above an existing path there are folders. -/
theorem TreeClosed.hasFolder_of_append {nodeAt : String → Option Node} (h : TreeClosed nodeAt)
    {names more : List String} (hn : AllNames (names ++ more)) (hne : more ≠ []) {node : Node}
    (hnode : nodeAt (ofNames (names ++ more)) = some node) :
    ∃ folder, nodeAt (ofNames names) = some folder ∧ folder.isFolder = true := by
  induction more using List.reverseRecOn generalizing node with
  | nil => exact absurd rfl hne
  | append_singleton rest name ih =>
      rw [← List.append_assoc] at hn hnode
      obtain ⟨ha, hname⟩ := Path.allNames_concat.mp hn
      obtain ⟨folder, hfolder, hf⟩ := h.parent _ _ hnode (Path.ofNames_ne_root hn (by simp))
      rw [Path.parent_ofNames ha hname] at hfolder
      by_cases hrest : rest = []
      · subst hrest
        rw [List.append_nil] at hfolder
        exact ⟨folder, hfolder, hf⟩
      · exact ih ha hrest hfolder

namespace FileSystem

variable {fs : FileSystem}

/-! ## Adding folders -/

/-- Puts an empty folder at a path and reads the clock. -/
def addFolder (fs : FileSystem) (path : String) : FileSystem :=
  (fs.put path (.newFolder (Path.fileName path) fs.clock)).tick

/-- Puts an empty folder at each of the given paths in turn. -/
def addFolders (fs : FileSystem) (paths : List String) : FileSystem := paths.foldl addFolder fs

/-- What the clock shows when it has been read `n` times. -/
def reading (fs : FileSystem) : Nat → Nat
  | 0 => fs.clock
  | n + 1 => fs.tick.reading n

/-- The folders that come to stand at the given paths, each with a reading of the clock of its
own. -/
def newFolders (fs : FileSystem) (paths : List String) : List (String × Node) :=
  paths.mapIdx fun n path => (path, .newFolder (Path.fileName path) (fs.reading n))

/-- **What it means that empty folders have been added** at the given paths: they were free, each
has a new folder now, with a reading of the clock of its own, and comes last in its parent. No
other node has changed, and there is no other child anywhere. -/
structure FoldersAdded (fs : FileSystem) (paths : List String) (later : FileSystem) : Prop where
  onlyWrites : fs.OnlyWrites later
  free : ∀ path ∈ paths, fs.lookup path = none
  nodup : paths.Nodup
  lookup_new : ∀ n (hn : n < paths.length),
    later.lookup paths[n] = some (.newFolder (Path.fileName paths[n]) (fs.reading n))
  lookup_other : ∀ path, path ∉ paths → later.lookup path = fs.lookup path
  children_eq : ∀ dir, later.children dir
    = fs.children dir ++ (fs.newFolders paths).filter fun entry => Overlay.isChild dir entry.1
  changes_eq : later.changes = fs.changes + paths.length

theorem tick_put (fs : FileSystem) (path : String) (node : Node) :
    (fs.put path node).tick = fs.tick.put path node := by
  cases h : fs.readings <;> simp [tick, put, h]

theorem reading_put (fs : FileSystem) (path : String) (node : Node) (n : Nat) :
    (fs.put path node).reading n = fs.reading n := by
  induction n generalizing fs with
  | zero => rfl
  | succ n ih => rw [reading, tick_put, ih, reading]

theorem children_tick (fs : FileSystem) (dir : String) :
    fs.tick.children dir = fs.children dir := by
  rw [tick]
  cases fs.readings <;> rfl

theorem changes_tick (fs : FileSystem) : fs.tick.changes = fs.changes := by
  rw [tick]
  cases fs.readings <;> rfl

/-- A write to a path that the overlay does not have is one more change. -/
theorem WellFormed.changes_put (h : fs.WellFormed) {path : String} (hnew : fs.lookup path = none)
    (node : Node) : (fs.put path node).changes = fs.changes + 1 := by
  have hid : fs.overlay.paths[path]? = none := by
    rw [← Option.not_isSome_iff_eq_none, ← h.overlay.isSome_node?, (lookup_eq_none.mp hnew).1]
    simp
  show (fs.overlay.insert path node).paths.size = _
  rw [Overlay.insert_of_none hid]
  show (fs.overlay.paths.insert path _).size = _
  rw [Std.TreeMap.size_insert, if_neg]
  · rfl
  · rw [Std.TreeMap.contains_eq_isSome_getElem?, hid]
    simp

theorem addFolder_eq (fs : FileSystem) (path : String) :
    fs.addFolder path = fs.tick.put path (.newFolder (Path.fileName path) fs.clock) :=
  fs.tick_put path _

theorem newFolders_cons (fs : FileSystem) (path : String) (paths : List String) :
    fs.newFolders (path :: paths)
      = (path, .newFolder (Path.fileName path) fs.clock)
        :: (fs.addFolder path).newFolders paths := by
  rw [newFolders, newFolders, List.mapIdx_cons, addFolder_eq]
  simp only [reading_put]
  rfl

theorem WellFormed.addFolder (h : fs.WellFormed) {path : String} (hp : Path.IsCanonical path) :
    (fs.addFolder path).WellFormed := (h.put hp _).tick

theorem WellFormed.lookup_addFolder (h : fs.WellFormed) (path q : String) :
    (fs.addFolder path).lookup q
      = if q = path then some (.newFolder (Path.fileName path) fs.clock) else fs.lookup q := by
  rw [FileSystem.addFolder, lookup_tick, h.lookup_put]

theorem onlyWrites_addFolder (fs : FileSystem) (path : String) :
    fs.OnlyWrites (fs.addFolder path) := (onlyWrites_put _ _ _).trans (onlyWrites_tick _)

theorem foldersAdded_nil (fs : FileSystem) : fs.FoldersAdded [] fs where
  onlyWrites := fs.onlyWrites_refl
  free := by simp
  nodup := List.nodup_nil
  lookup_new := by simp
  lookup_other _ _ := rfl
  children_eq dir := (List.append_nil _).symm
  changes_eq := rfl

/-- A folder at a free path, and then others. -/
theorem WellFormed.foldersAdded_cons (h : fs.WellFormed) {path : String} {paths : List String}
    {later : FileSystem} (hfree : fs.lookup path = none)
    (hrest : (fs.addFolder path).FoldersAdded paths later) :
    fs.FoldersAdded (path :: paths) later := by
  have hpath : path ∉ paths := by
    intro hmem
    have := hrest.free path hmem
    rw [h.lookup_addFolder, if_pos rfl] at this
    cases this
  refine ⟨(fs.onlyWrites_addFolder path).trans hrest.onlyWrites, ?_, ?_, ?_, ?_, ?_, ?_⟩
  · refine List.forall_mem_cons.mpr ⟨hfree, fun q hq => ?_⟩
    have hne : q ≠ path := fun heq => hpath (heq ▸ hq)
    rw [← hrest.free q hq, h.lookup_addFolder, if_neg hne]
  · exact List.nodup_cons.mpr ⟨hpath, hrest.nodup⟩
  · intro n hn
    cases n with
    | zero =>
        exact (hrest.lookup_other path hpath).trans ((h.lookup_addFolder _ _).trans (if_pos rfl))
    | succ n =>
        have hnew := hrest.lookup_new n (Nat.lt_of_succ_lt_succ hn)
        rwa [addFolder_eq, reading_put] at hnew
  · intro q hq
    obtain ⟨hne, hq⟩ := not_or.mp (List.mem_cons.not.mp hq)
    rw [hrest.lookup_other q hq, h.lookup_addFolder, if_neg hne]
  · intro dir
    rw [hrest.children_eq, newFolders_cons, List.filter_cons, FileSystem.addFolder, children_tick,
      h.children_put_of_none hfree, List.append_assoc]
    congr 1
    split_ifs <;> rfl
  · rw [hrest.changes_eq, FileSystem.addFolder, changes_tick, h.changes_put hfree, List.length_cons]
    omega

/-- **Adding folders at free paths** does what the name says. -/
theorem WellFormed.foldersAdded (h : fs.WellFormed) {paths : List String}
    (hcanonical : ∀ path ∈ paths, Path.IsCanonical path) (hnodup : paths.Nodup)
    (hfree : ∀ path ∈ paths, fs.lookup path = none) :
    fs.FoldersAdded paths (fs.addFolders paths) := by
  induction paths generalizing fs with
  | nil => exact fs.foldersAdded_nil
  | cons path paths ih =>
      obtain ⟨hp, hcanonical⟩ := List.forall_mem_cons.mp hcanonical
      obtain ⟨hpath, hnodup⟩ := List.nodup_cons.mp hnodup
      obtain ⟨hfirst, hfree⟩ := List.forall_mem_cons.mp hfree
      refine h.foldersAdded_cons hfirst (ih (h.addFolder hp) hcanonical hnodup fun q hq => ?_)
      have hne : q ≠ path := fun heq => hpath (heq ▸ hq)
      rw [h.lookup_addFolder, if_neg hne]
      exact hfree q hq

/-! ## Making the folders of a way -/

/-- The paths on the way to `path` that do not exist, the outermost first. -/
def missing (fs : FileSystem) (path : String) : List String :=
  (Path.way path).filter fun q => (fs.lookup q).isNone

/-- On a way where nothing exists, all folders are made. -/
theorem WellFormed.makeFolders_of_free (h : fs.WellFormed) {dir rest : List String}
    (hd : AllNames dir) (hr : AllNames rest)
    (hfree : ∀ q ∈ Path.along dir rest, fs.lookup q = none) :
    fs.makeFolders (ofNames dir) rest = (.ok (), fs.addFolders (Path.along dir rest)) := by
  induction rest generalizing fs dir with
  | nil => rfl
  | cons name rest ih =>
      obtain ⟨hname, hr⟩ := Path.allNames_cons.mp hr
      have hall := Path.allNames_concat.mpr ⟨hd, hname⟩
      obtain ⟨hfirst, hfree⟩ := List.forall_mem_cons.mp hfree
      have hmade : (fs.put (ofNames (dir ++ [name])) (.newFolder name fs.clock)).tick
          = fs.addFolder (ofNames (dir ++ [name])) := by
        rw [FileSystem.addFolder, Path.fileName_ofNames dir hname]
      simp only [makeFolders, Path.child_ofNames hd, hfirst, hmade]
      refine ih (h.addFolder (Path.isCanonical_ofNames hall)) hall hr fun q hq => ?_
      have hne : q ≠ ofNames (dir ++ [name]) := by
        rintro rfl
        exact Path.ofNames_not_mem_along hall hr hq
      rw [h.lookup_addFolder, if_neg hne]
      exact hfree q hq

/-- There is a file at the path. -/
def HasFile (fs : FileSystem) (path : String) : Prop :=
  ∃ node, fs.lookup path = some node ∧ node.isFolder = false

instance (fs : FileSystem) (path : String) : Decidable (fs.HasFile path) :=
  decidable_of_iff ((fs.lookup path).any (fun node => !node.isFolder) = true)
    (by simp [HasFile, Option.any_eq_true])

theorem HasFile.not_hasFolder {path : String} (h : fs.HasFile path) : ¬ fs.HasFolder path := by
  obtain ⟨node, hnode, hfile⟩ := h
  rintro ⟨other, hother, hfolder⟩
  obtain rfl := Option.some.inj (hnode.symm.trans hother)
  rw [hfile] at hfolder
  cases hfolder

theorem not_hasFile_of_none {path : String} (h : fs.lookup path = none) : ¬ fs.HasFile path := by
  rintro ⟨node, hnode, -⟩
  rw [h] at hnode
  cases hnode

/-- **Making the folders of a way** fails at the first file on it with nothing made, or makes those
that are missing. -/
theorem WellFormed.makeFolders_eq (h : fs.WellFormed) (htree : TreeClosed fs.lookup)
    {dir rest : List String} (hd : AllNames dir) (hr : AllNames rest) :
    fs.makeFolders (ofNames dir) rest
      = match (Path.along dir rest).find? fun q => fs.HasFile q with
        | some q => (.error (.notAFolder q), fs)
        | none =>
            (.ok (), fs.addFolders ((Path.along dir rest).filter fun q => (fs.lookup q).isNone)) := by
  induction rest generalizing dir with
  | nil => rfl
  | cons name rest ih =>
      have hnames := hr
      obtain ⟨hname, hr⟩ := Path.allNames_cons.mp hr
      have hall := Path.allNames_concat.mpr ⟨hd, hname⟩
      cases hl : fs.lookup (ofNames (dir ++ [name])) with
      | some node =>
          simp only [makeFolders, Path.child_ofNames hd, hl, Path.along]
          rw [List.filter_cons_of_neg (by simp [hl])]
          by_cases hf : node.isFolder = true
          · have hno : ¬ fs.HasFile (ofNames (dir ++ [name])) := fun hfile =>
              hfile.not_hasFolder ⟨node, hl, hf⟩
            rw [if_pos hf, List.find?_cons, decide_eq_false hno]
            exact ih hall hr
          · have hfile : fs.HasFile (ofNames (dir ++ [name])) :=
              ⟨node, hl, Bool.eq_false_iff.mpr hf⟩
            rw [if_neg hf, List.find?_cons, decide_eq_true hfile]
      | none =>
          -- the first missing path: from here on nothing exists
          have hfree : ∀ q ∈ Path.along dir (name :: rest), fs.lookup q = none := by
            intro q hq
            rcases List.mem_cons.mp hq with rfl | hq
            · exact hl
            · obtain ⟨more, -, hp, rfl⟩ := Path.mem_along.mp hq
              have hmore := Path.allNames_append.mpr ⟨hall, hr.of_prefix hp⟩
              exact htree.eq_none_of_prefix hmore (List.prefix_append _ _) hl
          have hnone : (Path.along dir (name :: rest)).find? (fun q => fs.HasFile q) = none := by
            rw [List.find?_eq_none]
            intro q hq hfile
            exact not_hasFile_of_none (hfree q hq) (of_decide_eq_true hfile)
          rw [hnone, List.filter_eq_self.mpr fun q hq => by rw [hfree q hq]; rfl]
          exact h.makeFolders_of_free hd hnames hfree

/-! ## Making a folder -/

theorem mem_missing {path q : String} (hp : Path.IsCanonical path) :
    q ∈ fs.missing path ↔ fs.lookup q = none ∧ ∃ n, Path.parent^[n] path = q := by
  rw [missing, List.mem_filter, hp.mem_way_iff, Option.isNone_iff_eq_none, and_comm]

/-- Adding the missing folders of a way is adding folders at free paths. -/
theorem WellFormed.foldersAdded_missing (h : fs.WellFormed) {path : String}
    (hp : Path.IsCanonical path) :
    fs.FoldersAdded (fs.missing path) (fs.addFolders (fs.missing path)) := by
  refine h.foldersAdded (fun q hq => ?_) (hp.nodup_way.filter _) fun q hq => ?_
  · exact hp.of_mem_way (List.mem_filter.mp hq).1
  · exact ((mem_missing hp).mp hq).1

/-- The missing paths on the way to a free path are those on the way to its parent, and itself. -/
theorem missing_concat (hroot : fs.HasFolder Path.root) {above : List String} {name : String}
    (ha : AllNames above) (hname : isName name = true)
    (hfree : fs.lookup (ofNames (above ++ [name])) = none) :
    fs.missing (ofNames (above ++ [name]))
      = (Path.along [] above).filter (fun q => (fs.lookup q).isNone)
        ++ [ofNames (above ++ [name])] := by
  obtain ⟨folder, hfolder, -⟩ := hroot
  rw [missing, Path.way_ofNames (Path.allNames_concat.mpr ⟨ha, hname⟩), Path.along_concat,
    List.nil_append, List.filter_cons_of_neg (by simp [hfolder]), List.filter_append]
  simp [hfree]

/-- Below a folder only the last path of a way can be missing. -/
theorem missing_of_hasFolder (htree : TreeClosed fs.lookup) {above : List String} {name : String}
    (ha : AllNames above) (hname : isName name = true) (hparent : fs.HasFolder (ofNames above))
    (hfree : fs.lookup (ofNames (above ++ [name])) = none) :
    fs.missing (ofNames (above ++ [name])) = [ofNames (above ++ [name])] := by
  obtain ⟨folder, hfolder, -⟩ := hparent
  have hnone : (Path.along [] above).filter (fun q => (fs.lookup q).isNone) = [] := by
    rw [List.filter_eq_nil_iff]
    intro q hq hmissing
    obtain ⟨more, -, hp, rfl⟩ := Path.mem_along.mp hq
    have := htree.eq_none_of_prefix ha hp (Option.isNone_iff_eq_none.mp hmissing)
    rw [hfolder] at this
    cases this
  rw [missing_concat htree.root ha hname hfree, hnone, List.nil_append]

/-- A path that does not exist goes on from its parent with a name. -/
theorem exists_concat_of_none (htree : TreeClosed fs.lookup) {path : String}
    (hp : Path.IsCanonical path) (hfree : fs.lookup path = none) :
    ∃ above name, AllNames above ∧ isName name = true ∧ path = ofNames (above ++ [name]) := by
  rcases hp.eq_root_or_child with rfl | ⟨_, name, ⟨above, ha, rfl⟩, hname, rfl⟩
  · obtain ⟨root, hroot, -⟩ := htree.root
    rw [hfree] at hroot
    cases hroot
  · exact ⟨above, name, ha, hname, Path.child_ofNames ha name⟩

/-- The first file on the way to a path. -/
def obstacle? (fs : FileSystem) (path : String) : Option String :=
  (Path.way path).find? fun q => fs.HasFile q

/-- On the way to a path that does not exist, a file can only stand above the path. -/
theorem obstacle?_concat (hroot : fs.HasFolder Path.root) {above : List String} {name : String}
    (ha : AllNames above) (hname : isName name = true)
    (hfree : fs.lookup (ofNames (above ++ [name])) = none) :
    fs.obstacle? (ofNames (above ++ [name]))
      = (Path.along [] above).find? fun q => fs.HasFile q := by
  have hno : ¬ fs.HasFile Path.root := fun hfile => hfile.not_hasFolder hroot
  have hno' : ¬ fs.HasFile (ofNames (above ++ [name])) := not_hasFile_of_none hfree
  rw [obstacle?, Path.way_ofNames (Path.allNames_concat.mpr ⟨ha, hname⟩), Path.along_concat,
    List.nil_append, List.find?_cons, decide_eq_false hno]
  show (Path.along [] above ++ [ofNames (above ++ [name])]).find? _ = _
  rw [List.find?_append, List.find?_cons, decide_eq_false hno', List.find?_nil, Option.or_none]

/-- On the way to a path that exists, only the path itself can be a file. -/
theorem find?_along_of_some (htree : TreeClosed fs.lookup) {names : List String}
    (hn : AllNames names) {node : Node} (hnode : fs.lookup (ofNames names) = some node) :
    (Path.along [] names).find? (fun q => fs.HasFile q)
      = if node.isFolder then none else some (ofNames names) := by
  rcases List.eq_nil_or_concat names with rfl | ⟨above, name, rfl⟩
  · obtain ⟨root, hroot, hfolder⟩ := htree.root
    obtain rfl := Option.some.inj (hroot.symm.trans hnode)
    rw [if_pos hfolder]
    rfl
  · rw [List.concat_eq_append] at hn hnode ⊢
    have habove : (Path.along [] above).find? (fun q => fs.HasFile q) = none := by
      rw [List.find?_eq_none]
      intro q hq hfile
      obtain ⟨more, -, ⟨rest, hrest⟩, rfl⟩ := Path.mem_along.mp hq
      rw [← hrest, List.append_assoc] at hn hnode
      exact (of_decide_eq_true hfile).not_hasFolder
        (htree.hasFolder_of_append hn (by simp) hnode)
    rw [Path.along_concat, List.nil_append, List.find?_append, habove, Option.none_or,
      List.find?_cons, List.find?_nil]
    by_cases hfolder : node.isFolder = true
    · have hno : ¬ fs.HasFile (ofNames (above ++ [name])) := fun hfile =>
        hfile.not_hasFolder ⟨node, hnode, hfolder⟩
      rw [decide_eq_false hno, if_pos hfolder]
    · have hfile : fs.HasFile (ofNames (above ++ [name])) :=
        ⟨node, hnode, Bool.eq_false_iff.mpr hfolder⟩
      rw [decide_eq_true hfile, if_neg hfolder]

theorem mem_way_of_obstacle? {path q : String} (h : fs.obstacle? path = some q) :
    q ∈ Path.way path ∧ fs.HasFile q := by
  rw [obstacle?] at h
  have hfile := List.find?_some h
  exact ⟨List.mem_of_find?_eq_some h, of_decide_eq_true hfile⟩

/-- **What making a folder with its parents answers** is told by the state in which it starts: the
target must not exist, and no file must stand on the way. -/
theorem WellFormed.makeFolder_eq (h : fs.WellFormed) (htree : TreeClosed fs.lookup)
    (input : String) :
    fs.makeFolder input true
      = match fs.lookup (fs.resolve input), fs.obstacle? (fs.resolve input) with
        | some _, _ => (.error (.alreadyExists (fs.resolve input)), fs)
        | none, some q => (.error (.notAFolder q), fs)
        | none, none =>
            (.ok (fs.resolve input), fs.addFolders (fs.missing (fs.resolve input))) := by
  simp only [makeFolder]
  cases hfree : fs.lookup (fs.resolve input) with
  | some node => rfl
  | none =>
      obtain ⟨above, name, ha, hname, htarget⟩ :=
        exists_concat_of_none htree (Path.isCanonical_resolve fs.cwd input) hfree
      have htarget : fs.resolve input = ofNames (above ++ [name]) := htarget
      rw [htarget] at hfree ⊢
      rw [Path.parent_ofNames ha hname, obstacle?_concat htree.root ha hname hfree]
      cases hparent : fs.lookup (ofNames above) with
      | some node =>
          rw [find?_along_of_some htree ha hparent]
          by_cases hfolder : node.isFolder = true
          · have hmissing :=
              missing_of_hasFolder htree ha hname ⟨node, hparent, hfolder⟩ hfree
            simp only [if_pos hfolder, hmissing]
            rfl
          · simp only [if_neg hfolder]
      | none =>
          have hmake := h.makeFolders_eq htree Path.allNames_nil ha
          rw [Path.ofNames_nil] at hmake
          simp only [Path.segmentsOf_ofNames ha, if_true, hmake]
          cases (Path.along [] above).find? fun q => fs.HasFile q with
          | some q => rfl
          | none =>
              -- the last folder is added after those above it
              simp only [missing_concat htree.root ha hname hfree, addFolders, List.foldl_append]
              rfl

/-- What making a folder alone answers: the target must not exist, and its parent must be a
folder. -/
theorem makeFolder_alone_eq (fs : FileSystem) (input : String) :
    fs.makeFolder input false
      = match fs.lookup (fs.resolve input), fs.requireFolder (Path.parent (fs.resolve input)) with
        | some _, _ => (.error (.alreadyExists (fs.resolve input)), fs)
        | none, .error e => (.error e, fs)
        | none, .ok _ => (.ok (fs.resolve input), fs.addFolder (fs.resolve input)) := by
  simp only [makeFolder, requireFolder]
  cases fs.lookup (fs.resolve input) with
  | some node => rfl
  | none =>
      cases fs.lookup (Path.parent (fs.resolve input)) with
      | none => rfl
      | some node =>
          by_cases hfolder : node.isFolder = true
          · simp only [if_pos hfolder]
            rfl
          · simp only [if_neg hfolder]

/-- **Making a folder** fails with nothing made, or makes the folders that are missing on the way:
the one that is asked for alone, unless those above it are wanted too. -/
theorem WellFormed.makeFolder_cases (h : fs.WellFormed) (htree : TreeClosed fs.lookup)
    (input : String) (parents : Bool) :
    (∃ e, fs.makeFolder input parents = (.error e, fs)) ∨
      fs.makeFolder input parents
          = (.ok (fs.resolve input), fs.addFolders (fs.missing (fs.resolve input))) ∧
        fs.lookup (fs.resolve input) = none ∧
        (parents = false → fs.missing (fs.resolve input) = [fs.resolve input]) := by
  cases parents with
  | true =>
      rw [h.makeFolder_eq htree]
      cases fs.lookup (fs.resolve input) with
      | some node => exact .inl ⟨_, rfl⟩
      | none =>
          cases fs.obstacle? (fs.resolve input) with
          | some q => exact .inl ⟨_, rfl⟩
          | none => exact .inr ⟨rfl, rfl, fun hfalse => by cases hfalse⟩
  | false =>
      rw [makeFolder_alone_eq]
      cases hfree : fs.lookup (fs.resolve input) with
      | some node => exact .inl ⟨_, rfl⟩
      | none =>
          cases hparent : fs.requireFolder (Path.parent (fs.resolve input)) with
          | error e => exact .inl ⟨e, rfl⟩
          | ok folder =>
              obtain ⟨above, name, ha, hname, htarget⟩ :=
                exists_concat_of_none htree (Path.isCanonical_resolve fs.cwd input) hfree
              have htarget : fs.resolve input = ofNames (above ++ [name]) := htarget
              have hfolder := hasFolder_of_requireFolder hparent
              rw [htarget] at hfree ⊢
              rw [htarget, Path.parent_ofNames ha hname] at hfolder
              rw [missing_of_hasFolder htree ha hname hfolder hfree]
              exact .inr ⟨rfl, rfl, fun _ => rfl⟩

/-- Where nothing is, there are no children. -/
theorem Shows.children_eq_nil {t : TreeRecord} (h : fs.Shows t) {names : List String}
    (hn : AllNames names) (hfree : fs.lookup (ofNames names) = none) :
    fs.children (ofNames names) = [] := by
  rw [h.children_eq names hn, TreeRecord.look, (h.walk_eq_none hn).mpr hfree]
  rfl

/-- No path of the way lies below the path that the way leads to. -/
theorem isChild_of_mem_way {path q : String} (hp : Path.IsCanonical path) (hq : q ∈ Path.way path) :
    Overlay.isChild path q = false := by
  obtain ⟨names, hn, rfl⟩ := hp
  obtain ⟨above, hprefix, rfl⟩ := (Path.mem_way_ofNames hn).mp hq
  have ha := hn.of_prefix hprefix
  rw [← Bool.not_eq_true, Overlay.isChild_iff (Path.isCanonical_ofNames ha)]
  rintro ⟨name, hname, heq⟩
  rw [Path.child_ofNames hn, Path.ofNames_inj ha (Path.allNames_concat.mpr ⟨hn, hname⟩)] at heq
  have hlen := hprefix.length_le
  rw [heq, List.length_append, List.length_singleton] at hlen
  omega

/-- The folder at the end of the way is empty. -/
theorem Shows.children_addFolders {t : TreeRecord} (h : fs.Shows t) {path : String}
    (hp : Path.IsCanonical path) (hfree : fs.lookup path = none) {later : FileSystem}
    (hadded : fs.FoldersAdded (fs.missing path) later) : later.children path = [] := by
  rw [hadded.children_eq, List.append_eq_nil_iff, List.filter_eq_nil_iff]
  constructor
  · obtain ⟨names, hn, rfl⟩ := hp
    exact h.children_eq_nil hn hfree
  · intro entry hentry
    obtain ⟨n, hn, rfl⟩ := List.mem_mapIdx.mp hentry
    have hway : (fs.missing path)[n] ∈ Path.way path :=
      (List.mem_filter.mp (List.getElem_mem hn)).1
    rw [Bool.not_eq_true]
    exact isChild_of_mem_way hp hway

/-- **Making a folder is all or nothing.** A failure leaves the file system as it is, also with
`parents` and a file on the way. A success gives the path that is meant, which was free; it adds
an empty folder there and at each of its ancestors that did not exist, the outermost first, each
with a reading of the clock as the time of its making and of its last change, and changes nothing
else. Without `parents` no ancestor is made. -/
theorem makeFolder_allOrNothing (h : fs.Reachable) (input : String) (parents : Bool) :
    (∀ e later, fs.makeFolder input parents = (.error e, later) → later = fs) ∧
    (∀ path later, fs.makeFolder input parents = (.ok path, later) →
      path = fs.resolve input ∧
      fs.lookup path = none ∧
      (∀ q, q ∈ fs.missing path ↔ fs.lookup q = none ∧ ∃ n, Path.parent^[n] path = q) ∧
      (parents = false → fs.missing path = [path]) ∧
      fs.FoldersAdded (fs.missing path) later ∧
      later.children path = []) := by
  obtain ⟨plain, hmirrors⟩ := h.exists_mirrors
  have hshows := hmirrors.shows
  have hp : Path.IsCanonical (fs.resolve input) := Path.isCanonical_resolve fs.cwd input
  rcases hshows.wellFormed.makeFolder_cases hshows.treeClosed input parents with
    ⟨failure, heq⟩ | ⟨heq, hfree, halone⟩
  · rw [heq]
    refine ⟨fun e later hresult => (Prod.mk.inj hresult).2.symm, fun path later hresult => ?_⟩
    cases (Prod.mk.inj hresult).1
  · rw [heq]
    refine ⟨fun e later hresult => ?_, fun path later hresult => ?_⟩
    · cases (Prod.mk.inj hresult).1
    · obtain ⟨hpath, rfl⟩ := Prod.mk.inj hresult
      obtain rfl := Except.ok.inj hpath
      have hadded := hshows.wellFormed.foldersAdded_missing hp
      exact ⟨rfl, hfree, fun q => mem_missing hp, halone, hadded,
        hshows.children_addFolders hp hfree hadded⟩

/-- Below a file nothing is made; beside it two folders are. -/
theorem makeFolder_allOrNothing_beside :
    let state := (FileSystem.empty.perform (.touch "f")).2
    (∀ e later, state.makeFolder "f/a/b" true = (.error e, later) → later = state) ∧
      (state.makeFolder "f/a/b" true).1 = .error (.notAFolder "/f") ∧
      (state.makeFolder "x/y" true).1 = .ok "/x/y" ∧
      state.FoldersAdded ["/x", "/x/y"] (state.makeFolder "x/y" true).2 := by
  intro state
  have hempty : FileSystem.ofRecord (.folder "" []) = .ok FileSystem.empty := rfl
  have hstate : state.Reachable := (Reachable.start hempty "guest" 0 []).step _
  have hrefused : (state.makeFolder "f/a/b" true).1 = .error (.notAFolder "/f") := by decide +kernel
  have hok : (state.makeFolder "x/y" true).1 = .ok "/x/y" := by decide +kernel
  have hmade : state.makeFolder "x/y" true = (.ok "/x/y", (state.makeFolder "x/y" true).2) := by
    rw [← hok]
  have hmissing : state.missing "/x/y" = ["/x", "/x/y"] := by decide +kernel
  obtain ⟨-, -, -, -, hadded, -⟩ :=
    (makeFolder_allOrNothing hstate "x/y" true).2 "/x/y" _ hmade
  rw [hmissing] at hadded
  exact ⟨(makeFolder_allOrNothing hstate "f/a/b" true).1, hrefused, hok, hadded⟩

end FileSystem

end PocketShell
