import PocketShell.FileSystem.Listing
import PocketShell.Proofs.FileSystem.Closure

set_option autoImplicit false

/-! # What exists stays, and the way back stays open

No operation takes a node away. A node is put at a path only where nothing is, or where the same
node is with another time of its last change, so a path that exists keeps existing and its node
changes in that time alone (`FileSystem.Keeps`). The case to look at is a folder made with its
parents: the folders on the way to it must not take its own place.

The directories that a run has gone through form a stack with the working directory at its top.
An operation either leaves it, or puts a folder on it, or takes the top off, which
`DirectoryStack.after` reads from the operation and its answer alone. Since folders stay folders,
`-` leads back to one whenever it is used.
-/

namespace PocketShell

open PocketShell.Path (AllNames ofNames)

namespace FileSystem

variable {fs : FileSystem}

/-! ## Nodes stay -/

/-- **What exists keeps existing**: each path keeps its node, with perhaps another time of the
last change. -/
def Keeps (fs later : FileSystem) : Prop :=
  ∀ path node, fs.lookup path = some node →
    ∃ modified, later.lookup path = some { node with modified }

/-- What a run of writes makes of a file system: another one that is well-formed, and that keeps
what exists. -/
structure Grows (fs later : FileSystem) : Prop where
  wellFormed : later.WellFormed
  keeps : fs.Keeps later

theorem Keeps.trans {a b c : FileSystem} (hab : a.Keeps b) (hbc : b.Keeps c) : a.Keeps c := by
  intro path node hnode
  obtain ⟨_, hb⟩ := hab path node hnode
  obtain ⟨modified, hc⟩ := hbc path _ hb
  exact ⟨modified, hc⟩

theorem Keeps.hasFolder {later : FileSystem} (h : fs.Keeps later) {path : String}
    (hfolder : fs.HasFolder path) : later.HasFolder path := by
  obtain ⟨node, hnode, hf⟩ := hfolder
  obtain ⟨modified, hlater⟩ := h path node hnode
  exact ⟨_, hlater, hf⟩

theorem Grows.trans {a b c : FileSystem} (hab : a.Grows b) (hbc : b.Grows c) : a.Grows c :=
  ⟨hbc.wellFormed, hab.keeps.trans hbc.keeps⟩

theorem Grows.tick {later : FileSystem} (h : fs.Grows later) : fs.Grows later.tick := by
  refine ⟨h.wellFormed.tick, fun path node hnode => ?_⟩
  rw [lookup_tick]
  exact h.keeps path node hnode

theorem WellFormed.grows (h : fs.WellFormed) : fs.Grows fs :=
  ⟨h, fun _ node hnode => ⟨node.modified, hnode⟩⟩

/-- A node at a new path takes no other's place. -/
theorem WellFormed.grows_put_of_none (h : fs.WellFormed) {path : String}
    (hp : Path.IsCanonical path) (hnew : fs.lookup path = none) (node : Node) :
    fs.Grows (fs.put path node) := by
  refine ⟨h.put hp node, fun q old hold => ?_⟩
  have hne : q ≠ path := by
    rintro rfl
    rw [hnew] at hold
    cases hold
  rw [h.lookup_put, if_neg hne]
  exact ⟨old.modified, hold⟩

/-- The same node with another time of its last change is what may take its place. -/
theorem WellFormed.grows_put_of_some (h : fs.WellFormed) {path : String} {node : Node}
    (hnode : fs.lookup path = some node) (modified : Option Nat) :
    fs.Grows (fs.put path { node with modified }) := by
  have hp : Path.IsCanonical path := h.isCanonical (by rw [hnode]; rfl)
  refine ⟨h.put hp _, fun q old hold => ?_⟩
  rw [h.lookup_put]
  split_ifs with hq
  · rw [hq, hnode] at hold
    obtain rfl := Option.some.inj hold
    exact ⟨modified, rfl⟩
  · exact ⟨old.modified, hold⟩

/-! ## Each operation keeps what exists -/

theorem WellFormed.grows_makeFolders (h : fs.WellFormed) {dir rest : List String}
    (hd : AllNames dir) (hr : AllNames rest) :
    fs.Grows (fs.makeFolders (ofNames dir) rest).2 := by
  induction rest generalizing fs dir with
  | nil => exact h.grows
  | cons name rest ih =>
      obtain ⟨hname, hr⟩ := Path.allNames_cons.mp hr
      have hall := Path.allNames_concat.mpr ⟨hd, hname⟩
      simp only [makeFolders, Path.child_ofNames hd]
      cases hl : fs.lookup (ofNames (dir ++ [name])) with
      | some node =>
          by_cases hf : node.isFolder = true
          · simp only [if_pos hf]
            exact ih h hall hr
          · simp only [if_neg hf]
            exact h.grows
      | none =>
          have hmade := h.grows_put_of_none (Path.isCanonical_ofNames hall) hl
            (.newFolder name fs.clock)
          exact hmade.tick.trans (ih hmade.tick.wellFormed hall hr)

theorem WellFormed.grows_makeFolder (h : fs.WellFormed) (input : String) (parents : Bool) :
    fs.Grows (fs.makeFolder input parents).2 := by
  have hp : Path.IsCanonical (fs.resolve input) := Path.isCanonical_resolve fs.cwd input
  simp only [makeFolder]
  cases hnew : fs.lookup (fs.resolve input) with
  | some node => exact h.grows
  | none =>
      dsimp only
      split
      · -- the parent exists
        split_ifs
        · exact (h.grows_put_of_none hp hnew _).tick
        · exact h.grows
      · -- the parent is made first, if at all
        split_ifs
        · obtain ⟨names, hn, hparent⟩ := hp.parent
          have hmade := h.grows_makeFolders Path.allNames_nil hn
          have hfree := h.lookup_makeFolders_above hp hnew
          rw [hparent, Path.segmentsOf_ofNames hn] at hfree
          rw [hparent, Path.segmentsOf_ofNames hn]
          rw [Path.ofNames_nil] at hmade
          split
          · next made heq =>
              rw [heq] at hmade hfree
              exact hmade.trans (hmade.wellFormed.grows_put_of_none hp hfree _).tick
          · next e made heq =>
              rw [heq] at hmade
              exact hmade
        · exact h.grows

theorem WellFormed.grows_touch (h : fs.WellFormed) (input : String) :
    fs.Grows (fs.touch input).2 := by
  have hp : Path.IsCanonical (fs.resolve input) := Path.isCanonical_resolve fs.cwd input
  have htick := h.grows.tick
  simp only [touch]
  cases hnode : fs.tick.lookup (fs.resolve input) with
  | some node => exact htick.trans (htick.wellFormed.grows_put_of_some hnode _)
  | none =>
      dsimp only
      split
      · exact htick
      · exact htick.trans (htick.wellFormed.grows_put_of_none hp hnode _)

theorem WellFormed.grows_changeDirectory (h : fs.WellFormed) (input : String) :
    fs.Grows (fs.changeDirectory input).2 := by
  simp only [changeDirectory]
  split
  · split
    · exact h.grows
    · exact ⟨⟨h.base, h.overlay⟩, h.grows.keeps⟩
  · split
    · exact h.grows
    · exact ⟨⟨h.base, h.overlay⟩, h.grows.keeps⟩

/-- **Every operation keeps what exists**, also one that fails. -/
theorem WellFormed.grows_perform (h : fs.WellFormed) (operation : FileOperation) :
    fs.Grows (fs.perform operation).2 := by
  cases operation with
  | changeDirectory input => exact h.grows_changeDirectory input
  | makeFolder input parents => exact h.grows_makeFolder input parents
  | touch input => exact h.grows_touch input

theorem WellFormed.grows_run (h : fs.WellFormed) (operations : List FileOperation) :
    fs.Grows (fs.run operations).2 := by
  induction operations generalizing fs with
  | nil => exact h.grows
  | cons operation rest ih =>
      have hfirst := h.grows_perform operation
      exact hfirst.trans (ih hfirst.wellFormed)

/-! ## The directories gone through -/

/-- The directories that `-` leads back through, from the first one to the working
directory. -/
def directories (fs : FileSystem) : List String := fs.earlier.reverse ++ [fs.cwd]

theorem directories_ne_nil (fs : FileSystem) : fs.directories ≠ [] := by simp [directories]

end FileSystem

namespace DirectoryStack

/-- The directories after an operation, read from the operation and its answer alone. Going to a
folder adds it at the end; `-` takes the last one off, unless it is the only one. -/
def after (visited : List String) : FileOperation → FileAnswer → List String
  | .changeDirectory input, .path answer =>
      if input = "-" then if 1 < visited.length then visited.dropLast else visited
      else
        match answer with
        | .ok target => visited ++ [target]
        | .error _ => visited
  | _, _ => visited

/-- What is on the stack was there before, or is the folder that the operation has gone to. -/
theorem mem_after {visited : List String} {operation : FileOperation} {answer : FileAnswer}
    {dir : String} (h : dir ∈ after visited operation answer) :
    dir ∈ visited ∨ ∃ input, operation = .changeDirectory input ∧ input ≠ "-" ∧
      answer = .path (.ok dir) := by
  unfold after at h
  split at h
  · next input answer =>
      split_ifs at h with hback
      · exact .inl (List.mem_of_mem_dropLast h)
      · exact .inl h
      · split at h
        · next target =>
            rcases List.mem_append.mp h with h | h
            · exact .inl h
            · obtain rfl := List.mem_singleton.mp h
              exact .inr ⟨input, rfl, hback, rfl⟩
        · exact .inl h
  · exact .inl h

/-- The directories after some operations. -/
def afterAll (visited : List String) : List FileOperation → List FileAnswer → List String
  | operation :: operations, answer :: answers =>
      afterAll (after visited operation answer) operations answers
  | _, _ => visited

end DirectoryStack

namespace FileSystem

variable {fs : FileSystem}

theorem OnlyWrites.directories_eq {later : FileSystem} (h : fs.OnlyWrites later) :
    later.directories = fs.directories := by
  obtain ⟨_, _, _, rfl⟩ := h
  rfl

/-- Going to a directory adds it, going back takes one off. -/
theorem directories_changeDirectory (fs : FileSystem) (input : String) :
    (fs.changeDirectory input).2.directories
      = DirectoryStack.after fs.directories (.changeDirectory input)
          (.path (fs.changeDirectory input).1) := by
  simp only [changeDirectory, DirectoryStack.after]
  split_ifs with hback hlen
  · cases hearlier : fs.earlier with
    | nil => simp [directories, hearlier] at hlen
    | cons previous earlier => simp [directories, hearlier]
  · cases hearlier : fs.earlier with
    | nil => rfl
    | cons previous earlier => simp [directories, hearlier] at hlen
  all_goals
    split
    · rfl
    · simp [directories]

/-- **The directories change as the answers tell.** -/
theorem directories_perform (fs : FileSystem) (operation : FileOperation) :
    (fs.perform operation).2.directories
      = DirectoryStack.after fs.directories operation (fs.perform operation).1 := by
  cases operation with
  | changeDirectory input => exact fs.directories_changeDirectory input
  | makeFolder input parents => exact (fs.onlyWrites_makeFolder input parents).directories_eq
  | touch input => exact (fs.onlyWrites_touch input).directories_eq

theorem directories_run (fs : FileSystem) (operations : List FileOperation) :
    (fs.run operations).2.directories
      = DirectoryStack.afterAll fs.directories operations (fs.run operations).1 := by
  induction operations generalizing fs with
  | nil => rfl
  | cons operation rest ih =>
      show ((fs.perform operation).2.run rest).2.directories = _
      rw [ih, directories_perform]
      rfl

/-! ## The way back -/

/-- **The invariant of a file system with a way back**: each directory gone through is a
folder. -/
structure Sound (fs : FileSystem) : Prop where
  wellFormed : fs.WellFormed
  hasFolder : ∀ dir ∈ fs.directories, fs.HasFolder dir

/-- A directory that is gone to is a folder. -/
theorem hasFolder_of_changeDirectory {input target : String} (hinput : input ≠ "-")
    (h : (fs.changeDirectory input).1 = .ok target) : fs.HasFolder target := by
  simp only [changeDirectory, if_neg hinput] at h
  split at h
  · cases h
  · next node hrequire =>
      obtain rfl := Except.ok.inj h
      exact hasFolder_of_requireFolder hrequire

theorem Sound.perform (h : fs.Sound) (operation : FileOperation) :
    (fs.perform operation).2.Sound := by
  have hgrows := h.wellFormed.grows_perform operation
  refine ⟨hgrows.wellFormed, fun dir hdir => hgrows.keeps.hasFolder ?_⟩
  rw [directories_perform] at hdir
  rcases DirectoryStack.mem_after hdir with hdir | ⟨input, rfl, hinput, hanswer⟩
  · exact h.hasFolder dir hdir
  · exact hasFolder_of_changeDirectory hinput (FileAnswer.path.inj hanswer)

theorem Sound.run (h : fs.Sound) (operations : List FileOperation) :
    (fs.run operations).2.Sound := by
  induction operations generalizing fs with
  | nil => exact h
  | cons operation rest ih => exact ih (h.perform operation)

/-- **Every state has a way back.** -/
theorem Reachable.sound (h : fs.Reachable) : fs.Sound := by
  induction h with
  | start h owner clock readings =>
      have hshows := (Mirrors.start h owner clock readings).shows
      obtain ⟨base, -, rfl⟩ := exists_of_ofRecord h
      refine ⟨hshows.wellFormed, fun dir hdir => ?_⟩
      obtain rfl : dir = Path.root := List.mem_singleton.mp hdir
      exact hshows.hasFolder_root
  | step _ operation ih => exact ih.perform operation

/-- The owner is of no concern for what is where. -/
theorem Sound.withOwner (h : fs.Sound) (owner : String) : Sound { fs with owner } :=
  ⟨⟨h.wellFormed.base, h.wellFormed.overlay⟩, h.hasFolder⟩

/-- **One can move in a file system**: there is a last directory gone through, it is the working
directory, and all of them are folders. So the working directory can be listed, and going back
leads to a directory that can be gone to. -/
structure Navigable (fs : FileSystem) : Prop where
  directories_ne_nil : fs.directories ≠ []
  getLast?_directories : fs.directories.getLast? = some fs.cwd
  hasFolder : ∀ dir ∈ fs.directories, fs.HasFolder dir
  list_cwd : ∀ options, ∃ entries, fs.list none options = .ok entries
  back : (fs.changeDirectory "-").1 = .ok (fs.changeDirectory "-").2.cwd

theorem list_of_hasFolder {fs : FileSystem} (h : fs.HasFolder fs.cwd) (options : ListOptions) :
    ∃ entries, fs.list none options = .ok entries := by
  obtain ⟨node, hnode, hfolder⟩ := h
  have hrequire : fs.require fs.cwd = .ok node := by rw [require, hnode]
  simp only [list, Option.map_none, Option.getD_none]
  rw [hrequire]
  exact ⟨_, if_pos hfolder⟩

theorem changeDirectory_back (fs : FileSystem) :
    (fs.changeDirectory "-").1 = .ok (fs.changeDirectory "-").2.cwd := by
  simp only [changeDirectory, if_pos]
  split
  · rfl
  · rfl

theorem Sound.navigable (h : fs.Sound) : fs.Navigable where
  directories_ne_nil := fs.directories_ne_nil
  getLast?_directories := by simp [directories]
  hasFolder := h.hasFolder
  list_cwd := list_of_hasFolder (h.hasFolder fs.cwd (by simp [directories]))
  back := fs.changeDirectory_back

end FileSystem

end PocketShell
