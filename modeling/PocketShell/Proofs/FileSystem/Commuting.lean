import PocketShell.Proofs.FileSystem.Failing
import PocketShell.Proofs.FileSystem.Views

set_option autoImplicit false

/-! # Writes in different places commute

Neither of two operations writes what the other one reads, as long as their targets lie apart:
neither is the other, or above it. For operations that write their target alone that is all, for
what they read is the target and its parent (`WritesTarget.perform_eq`, `WritesTarget.frame`).

Two folders made with their parents may share some of these, and whichever operation comes first
makes them. If the clock stands still both make the same folders there, and a folder that the other
one has made on the way is no obstacle (`StoppedAt.lookup_makeFolder`). So the look-ups are the same
in the end, and with them all that is shown.
-/

namespace PocketShell

open PocketShell.Path (IsBelow)

/-- What the user typed for the target. -/
def FileOperation.input : FileOperation → String
  | .changeDirectory input | .makeFolder input _ | .touch input => input

/-- The operations that write at their target only. -/
inductive FileOperation.WritesTarget : FileOperation → Prop where
  | makeFolder (input : String) : WritesTarget (.makeFolder input false)
  | touch (input : String) : WritesTarget (.touch input)

/-- The operation that may write on all the way to its target. -/
inductive FileOperation.WritesWay : FileOperation → Prop where
  | makeFolder (input : String) : WritesWay (.makeFolder input true)

/-- **Two paths lie apart**: they differ, and neither is above the other. -/
structure Path.Apart (p q : String) : Prop where
  ne : p ≠ q
  not_below : ¬ IsBelow p q
  not_above : ¬ IsBelow q p

/-- Canonical paths lie apart if neither is on the way to the other. -/
theorem Path.Apart.of_notMem_way {p q : String} (hp : Path.IsCanonical p) (hq : Path.IsCanonical q)
    (hpq : p ∉ Path.way q) (hqp : q ∉ Path.way p) : Path.Apart p q := by
  rw [hq.mem_way_iff] at hpq
  rw [hp.mem_way_iff] at hqp
  exact ⟨fun heq => hpq ⟨0, heq.symm⟩, fun hbelow => hpq hbelow.2, fun hbelow => hqp hbelow.2⟩

theorem Path.Apart.symm {p q : String} (h : Path.Apart p q) : Path.Apart q p :=
  ⟨h.ne.symm, h.not_above, h.not_below⟩

/-- Going to the parent, again and again, does not lead to a path that lies apart. -/
theorem Path.Apart.iterate_parent_ne {p q : String} (h : Path.Apart p q) (n : Nat) :
    Path.parent^[n] q ≠ p := by
  intro heq
  exact h.not_below ⟨h.ne.symm, n, heq⟩

namespace FileSystem

variable {fs other : FileSystem} {operation : FileOperation} {time : Nat}

/-! ## A clock that stands still -/

/-- **The clock stands still**: it shows the same time now and at each later reading. -/
structure StoppedAt (fs : FileSystem) (time : Nat) : Prop where
  clock_eq : fs.clock = time
  readings_eq : ∀ reading ∈ fs.readings, reading = time

theorem StoppedAt.tick (h : fs.StoppedAt time) : fs.tick.StoppedAt time := by
  rw [FileSystem.tick]
  cases hreadings : fs.readings with
  | nil => exact h
  | cons next later =>
      have hall := h.readings_eq
      rw [hreadings] at hall
      exact ⟨hall next List.mem_cons_self, fun reading hr => hall reading (.tail _ hr)⟩

theorem StoppedAt.put (h : fs.StoppedAt time) (path : String) (node : Node) :
    (fs.put path node).StoppedAt time := ⟨h.clock_eq, h.readings_eq⟩

theorem StoppedAt.addFolder (h : fs.StoppedAt time) (path : String) :
    (fs.addFolder path).StoppedAt time := (h.put path _).tick

theorem StoppedAt.addFolders (h : fs.StoppedAt time) (paths : List String) :
    (fs.addFolders paths).StoppedAt time := by
  induction paths generalizing fs with
  | nil => exact h
  | cons path rest ih => exact ih (h.addFolder path)

theorem StoppedAt.reading (h : fs.StoppedAt time) (n : Nat) : fs.reading n = time := by
  induction n generalizing fs with
  | zero => exact h.clock_eq
  | succ n ih => exact ih h.tick

/-- **No operation sets the clock going.** -/
theorem StoppedAt.perform (h : fs.StoppedAt time) (hfs : fs.Listed) (operation : FileOperation) :
    (fs.perform operation).2.StoppedAt time := by
  cases operation with
  | changeDirectory input =>
      show (fs.changeDirectory input).2.StoppedAt time
      simp only [changeDirectory]
      split
      · split <;> exact ⟨h.clock_eq, h.readings_eq⟩
      · split <;> exact ⟨h.clock_eq, h.readings_eq⟩
  | makeFolder input parents =>
      show (fs.makeFolder input parents).2.StoppedAt time
      rcases hfs.wellFormed.makeFolder_cases hfs.treeClosed input parents with
        ⟨e, heq⟩ | ⟨heq, -, -⟩
      · rw [heq]
        exact h
      · rw [heq]
        exact h.addFolders _
  | touch input =>
      show (fs.touch input).2.StoppedAt time
      rw [touch_eq]
      split
      · exact h.tick.put _ _
      · exact h.tick
      · exact h.tick.put _ _

/-- Making a folder or touching leaves the directories and the owner as they are. -/
theorem onlyWrites_perform (fs : FileSystem)
    (hop : operation.WritesTarget ∨ operation.WritesWay) :
    fs.OnlyWrites (fs.perform operation).2 := by
  rcases hop with hop | hop
  · cases hop with
    | makeFolder input => exact fs.onlyWrites_makeFolder input false
    | touch input => exact fs.onlyWrites_touch input
  · cases hop with
    | makeFolder input => exact fs.onlyWrites_makeFolder input true

/-! ## Operations that write their target -/

/-- **What an operation about a target and its parent reads** is the same in two states. -/
structure SameAt (fs other : FileSystem) (target : String) : Prop where
  cwd_eq : other.cwd = fs.cwd
  clock_eq : other.clock = fs.clock
  target_eq : other.lookup target = fs.lookup target
  parent_eq : other.lookup (Path.parent target) = fs.lookup (Path.parent target)

theorem SameAt.requireFolder_eq {target : String} (h : fs.SameAt other target) :
    other.requireFolder (Path.parent target) = fs.requireFolder (Path.parent target) := by
  rw [requireFolder, h.parent_eq, requireFolder]

/-- Touching answers the same, and leaves the same at its target. -/
theorem SameAt.touch_eq {input : String} (h : fs.SameAt other (fs.resolve input))
    (hfs : fs.WellFormed) (hother : other.WellFormed) :
    (other.touch input).1 = (fs.touch input).1 ∧
      (other.touch input).2.lookup (fs.resolve input)
        = (fs.touch input).2.lookup (fs.resolve input) := by
  rw [FileSystem.touch_eq, FileSystem.touch_eq, resolve_of_cwd_eq h.cwd_eq, h.requireFolder_eq,
    h.target_eq, h.clock_eq]
  cases fs.lookup (fs.resolve input) with
  | some node =>
      refine ⟨rfl, ?_⟩
      rw [hother.tick.lookup_put, hfs.tick.lookup_put, if_pos rfl, if_pos rfl]
  | none =>
      cases fs.requireFolder (Path.parent (fs.resolve input)) with
      | error e =>
          refine ⟨rfl, ?_⟩
          rw [lookup_tick, h.target_eq, lookup_tick]
      | ok folder =>
          refine ⟨rfl, ?_⟩
          rw [hother.tick.lookup_put, hfs.tick.lookup_put, if_pos rfl, if_pos rfl]

/-- Making a folder alone answers the same, and leaves the same at its target. -/
theorem SameAt.makeFolder_eq {input : String} (h : fs.SameAt other (fs.resolve input))
    (hfs : fs.WellFormed) (hother : other.WellFormed) :
    (other.makeFolder input false).1 = (fs.makeFolder input false).1 ∧
      (other.makeFolder input false).2.lookup (fs.resolve input)
        = (fs.makeFolder input false).2.lookup (fs.resolve input) := by
  have htarget := h.target_eq
  rw [makeFolder_alone_eq, makeFolder_alone_eq, resolve_of_cwd_eq h.cwd_eq, h.requireFolder_eq,
    h.target_eq]
  cases hnode : fs.lookup (fs.resolve input) with
  | some node => exact ⟨rfl, htarget⟩
  | none =>
      cases fs.requireFolder (Path.parent (fs.resolve input)) with
      | error e => exact ⟨rfl, htarget⟩
      | ok folder =>
          refine ⟨rfl, ?_⟩
          rw [hother.lookup_addFolder, hfs.lookup_addFolder, if_pos rfl, if_pos rfl, h.clock_eq]

/-- Making a folder alone leaves every other path as it is. -/
theorem WellFormed.lookup_makeFolder_alone (h : fs.WellFormed) (input : String) {path : String}
    (hne : path ≠ fs.resolve input) :
    (fs.makeFolder input false).2.lookup path = fs.lookup path := by
  rw [makeFolder_alone_eq]
  split
  · rfl
  · rfl
  · rw [h.lookup_addFolder, if_neg hne]

/-- **An operation that writes its target reads no more than that and its parent**: where these are
the same it answers the same, and leaves the same at the target. -/
theorem SameAt.perform_eq (hop : operation.WritesTarget)
    (h : fs.SameAt other (fs.resolve operation.input)) (hfs : fs.WellFormed)
    (hother : other.WellFormed) :
    (other.perform operation).1 = (fs.perform operation).1 ∧
      (other.perform operation).2.lookup (fs.resolve operation.input)
        = (fs.perform operation).2.lookup (fs.resolve operation.input) := by
  cases hop with
  | makeFolder input =>
      have h : fs.SameAt other (fs.resolve input) := h
      obtain ⟨hanswer, hlookup⟩ := h.makeFolder_eq hfs hother
      simp only [perform_makeFolder, hanswer]
      exact ⟨trivial, hlookup⟩
  | touch input =>
      have h : fs.SameAt other (fs.resolve input) := h
      obtain ⟨hanswer, hlookup⟩ := h.touch_eq hfs hother
      simp only [perform_touch, hanswer]
      exact ⟨trivial, hlookup⟩

/-- **It writes its target only.** -/
theorem WellFormed.lookup_perform (h : fs.WellFormed) (hop : operation.WritesTarget)
    {path : String} (hne : path ≠ fs.resolve operation.input) :
    (fs.perform operation).2.lookup path = fs.lookup path := by
  cases hop with
  | makeFolder input => exact h.lookup_makeFolder_alone input hne
  | touch input => exact h.lookup_touch input hne

/-! ## Making a folder with its parents -/

/-- The folder that comes to stand at a path, if this path is missing on the way to the target and
nothing hinders. -/
def wayFolder? (fs : FileSystem) (target path : String) : Option Node :=
  if (fs.lookup target).isNone ∧ (fs.obstacle? target).isNone ∧ path ∈ Path.way target then
    some (.newFolder (Path.fileName path) fs.clock)
  else none

theorem isFolder_of_wayFolder? {target path : String} {node : Node}
    (h : fs.wayFolder? target path = some node) : node.isFolder = true := by
  rw [wayFolder?] at h
  split_ifs at h
  obtain rfl := Option.some.inj h
  rfl

/-- At one path two operations make the same folder. -/
theorem wayFolder?_or_comm (fs : FileSystem) (target target' path : String) :
    (fs.wayFolder? target path).or (fs.wayFolder? target' path)
      = (fs.wayFolder? target' path).or (fs.wayFolder? target path) := by
  rw [wayFolder?, wayFolder?]
  split_ifs <;> rfl

/-- **With a clock that stands still** the missing folders of a way all get the same time, so what is
at a path later does not depend on which of them were missing. -/
theorem StoppedAt.lookup_makeFolder (h : fs.StoppedAt time) (hfs : fs.WellFormed)
    (htree : TreeClosed fs.lookup) (input path : String) :
    (fs.makeFolder input true).2.lookup path
      = (fs.lookup path).or (fs.wayFolder? (fs.resolve input) path) := by
  have hp := fs.isCanonical_resolve input
  rw [hfs.makeFolder_eq htree, wayFolder?]
  cases htarget : fs.lookup (fs.resolve input) with
  | some node => exact Option.or_none.symm
  | none =>
      cases hobstacle : fs.obstacle? (fs.resolve input) with
      | some q => exact Option.or_none.symm
      | none =>
          have hadded := hfs.foldersAdded_missing hp
          by_cases hmem : path ∈ fs.missing (fs.resolve input)
          · -- a new folder has the reading at its place, which is the same at every place
            obtain ⟨n, hn, rfl⟩ := List.mem_iff_getElem.mp hmem
            obtain ⟨hway, -⟩ := List.mem_filter.mp hmem
            rw [hadded.lookup_new n hn, hadded.free _ hmem, Option.none_or,
              if_pos ⟨rfl, rfl, hway⟩, h.reading, h.clock_eq]
          · rw [hadded.lookup_other path hmem]
            cases hnode : fs.lookup path with
            | some node => rfl
            | none =>
                have hway : path ∉ Path.way (fs.resolve input) := fun hway =>
                  hmem (List.mem_filter.mpr ⟨hway, by rw [hnode]; rfl⟩)
                rw [if_neg fun hall => hway hall.2.2]
                rfl

/-- **What making a folder with its parents reads** is the same in two states. -/
structure SameOnWay (fs other : FileSystem) (target : String) : Prop where
  cwd_eq : other.cwd = fs.cwd
  clock_eq : other.clock = fs.clock
  target_eq : other.lookup target = fs.lookup target
  hasFile_iff : ∀ q, other.HasFile q ↔ fs.HasFile q

theorem SameOnWay.obstacle?_eq {target : String} (h : fs.SameOnWay other target) :
    other.obstacle? target = fs.obstacle? target := by
  simp only [obstacle?, h.hasFile_iff]

theorem SameOnWay.wayFolder?_eq {target : String} (h : fs.SameOnWay other target) (path : String) :
    other.wayFolder? target path = fs.wayFolder? target path := by
  rw [wayFolder?, h.target_eq, h.obstacle?_eq, h.clock_eq, wayFolder?]

theorem SameOnWay.makeFolder_eq {input : String} (h : fs.SameOnWay other (fs.resolve input))
    (hfs : fs.Listed) (hother : other.Listed) :
    (other.makeFolder input true).1 = (fs.makeFolder input true).1 := by
  rw [hother.wellFormed.makeFolder_eq hother.treeClosed, hfs.wellFormed.makeFolder_eq hfs.treeClosed,
    resolve_of_cwd_eq h.cwd_eq, h.target_eq, h.obstacle?_eq]
  cases fs.lookup (fs.resolve input) with
  | some node => rfl
  | none => cases fs.obstacle? (fs.resolve input) <;> rfl

/-- **Folders made on another way change nothing of that**: none of them is a target that lies apart,
and none is a file. -/
theorem StoppedAt.sameOnWay (h : fs.StoppedAt time) (hfs : fs.Listed) {input target : String}
    (hapart : Path.Apart target (fs.resolve input)) :
    fs.SameOnWay (fs.makeFolder input true).2 target := by
  have hlater := h.perform hfs (.makeFolder input true)
  have hlookup := h.lookup_makeFolder hfs.wellFormed hfs.treeClosed input
  refine ⟨(fs.onlyWrites_makeFolder input true).cwd_eq, hlater.clock_eq.trans h.clock_eq.symm, ?_,
    fun q => ?_⟩
  · have hway : target ∉ Path.way (fs.resolve input) := by
      rw [(fs.isCanonical_resolve input).mem_way_iff]
      rintro ⟨n, hn⟩
      exact hapart.iterate_parent_ne n hn
    rw [hlookup, wayFolder?, if_neg fun hall => hway hall.2.2, Option.or_none]
  · rw [HasFile, hlookup, HasFile]
    cases fs.lookup q with
    | some node => rfl
    | none =>
        -- what has come here is a folder
        constructor
        · rintro ⟨node, hnode, hfile⟩
          rw [Option.none_or] at hnode
          rw [isFolder_of_wayFolder? hnode] at hfile
          cases hfile
        · rintro ⟨node, hnode, -⟩
          cases hnode

/-! ## Both orders -/

/-- **Two operations commute**: each gives the answer that it gives when it comes first, and the
states that the two orders lead to show the same. -/
structure Commute (fs : FileSystem) (a b : FileOperation) : Prop where
  first : ((fs.perform b).2.perform a).1 = (fs.perform a).1
  second : ((fs.perform a).2.perform b).1 = (fs.perform b).1
  showsSame : ((fs.perform a).2.perform b).2.ShowsSame ((fs.perform b).2.perform a).2

variable {a b : FileOperation}

/-- After both orders of two writes it is enough to compare the look-ups. -/
theorem Reachable.showsSame (h : fs.Reachable) (ha : a.WritesTarget ∨ a.WritesWay)
    (hb : b.WritesTarget ∨ b.WritesWay)
    (hlookup : ∀ path, ((fs.perform b).2.perform a).2.lookup path
      = ((fs.perform a).2.perform b).2.lookup path) :
    ((fs.perform a).2.perform b).2.ShowsSame ((fs.perform b).2.perform a).2 := by
  have hab := (fs.onlyWrites_perform ha).trans (onlyWrites_perform _ hb)
  have hba := (fs.onlyWrites_perform hb).trans (onlyWrites_perform _ ha)
  have halike : ((fs.perform a).2.perform b).2.Alike ((fs.perform b).2.perform a).2 :=
    ⟨hlookup, hba.cwd_eq.trans hab.cwd_eq.symm, hba.owner_eq.trans hab.owner_eq.symm⟩
  exact halike.showsSame ((h.step a).step b).listed ((h.step b).step a).listed

/-- A write elsewhere changes nothing that is read at a target that lies apart. -/
theorem StoppedAt.sameAt (h : fs.StoppedAt time) (hfs : fs.Listed) (hop : operation.WritesTarget)
    {target : String} (hapart : Path.Apart target (fs.resolve operation.input)) :
    fs.SameAt (fs.perform operation).2 target where
  cwd_eq := (fs.onlyWrites_perform (.inl hop)).cwd_eq
  clock_eq := (h.perform hfs operation).clock_eq.trans h.clock_eq.symm
  target_eq := hfs.wellFormed.lookup_perform hop hapart.ne
  parent_eq := hfs.wellFormed.lookup_perform hop (hapart.symm.iterate_parent_ne 1)

/-- Operations that write their targets commute. -/
theorem StoppedAt.commute_targets (hstopped : fs.StoppedAt time) (h : fs.Reachable)
    (ha : a.WritesTarget) (hb : b.WritesTarget)
    (hapart : Path.Apart (fs.resolve a.input) (fs.resolve b.input)) : fs.Commute a b := by
  have hlisted := h.listed
  have hafter := (h.step a).listed
  have hafter' := (h.step b).listed
  have hsame := hstopped.sameAt hlisted hb hapart
  have hsame' := hstopped.sameAt hlisted ha hapart.symm
  obtain ⟨hanswer, hleft⟩ := hsame.perform_eq ha hlisted.wellFormed hafter'.wellFormed
  obtain ⟨hanswer', hleft'⟩ := hsame'.perform_eq hb hlisted.wellFormed hafter.wellFormed
  refine ⟨hanswer, hanswer', h.showsSame (.inl ha) (.inl hb) fun path => ?_⟩
  have hresolve := resolve_of_cwd_eq hsame.cwd_eq a.input
  have hresolve' := resolve_of_cwd_eq hsame'.cwd_eq b.input
  -- at each target one operation leaves what it would leave alone, and the other leaves that alone
  by_cases hpa : path = fs.resolve a.input
  · subst hpa
    rw [hleft, hafter.wellFormed.lookup_perform hb (by rw [hresolve']; exact hapart.ne)]
  · rw [hafter'.wellFormed.lookup_perform ha (by rwa [hresolve])]
    by_cases hpb : path = fs.resolve b.input
    · subst hpb
      rw [hleft']
    · rw [hlisted.wellFormed.lookup_perform hb hpb,
        hafter.wellFormed.lookup_perform hb (by rwa [hresolve']),
        hlisted.wellFormed.lookup_perform ha hpa]

/-- The second of two folders made with their parents finds its way as it was, but for the folders
that the first one has made. -/
theorem StoppedAt.makeFolder_after (hstopped : fs.StoppedAt time) (h : fs.Reachable)
    {input input' : String} (hapart : Path.Apart (fs.resolve input') (fs.resolve input)) :
    ((fs.makeFolder input true).2.makeFolder input' true).1 = (fs.makeFolder input' true).1 ∧
      ∀ path, ((fs.makeFolder input true).2.makeFolder input' true).2.lookup path
        = ((fs.lookup path).or (fs.wayFolder? (fs.resolve input) path)).or
            (fs.wayFolder? (fs.resolve input') path) := by
  have hlisted := h.listed
  have hlater : (fs.makeFolder input true).2.Listed := (h.step (.makeFolder input true)).listed
  have hstopped' : (fs.makeFolder input true).2.StoppedAt time :=
    hstopped.perform hlisted (.makeFolder input true)
  have hsame := hstopped.sameOnWay hlisted hapart
  refine ⟨hsame.makeFolder_eq hlisted hlater, fun path => ?_⟩
  rw [hstopped'.lookup_makeFolder hlater.wellFormed hlater.treeClosed,
    resolve_of_cwd_eq hsame.cwd_eq, hsame.wayFolder?_eq,
    hstopped.lookup_makeFolder hlisted.wellFormed hlisted.treeClosed]

/-- Folders made with their parents commute. -/
theorem StoppedAt.commute_ways (hstopped : fs.StoppedAt time) (h : fs.Reachable)
    (ha : a.WritesWay) (hb : b.WritesWay)
    (hapart : Path.Apart (fs.resolve a.input) (fs.resolve b.input)) : fs.Commute a b := by
  have hshows := h.showsSame (.inr ha) (.inr hb)
  obtain ⟨input⟩ := ha
  obtain ⟨input'⟩ := hb
  have hapart : Path.Apart (fs.resolve input) (fs.resolve input') := hapart
  obtain ⟨hanswer, hlookup⟩ := hstopped.makeFolder_after h hapart
  obtain ⟨hanswer', hlookup'⟩ := hstopped.makeFolder_after h hapart.symm
  refine ⟨?_, ?_, hshows fun path => ?_⟩
  · simp only [perform_makeFolder, hanswer]
  · simp only [perform_makeFolder, hanswer']
  · -- what both ways miss gets the same folder from either operation
    simp only [perform_makeFolder]
    rw [hlookup, hlookup', Option.or_assoc, wayFolder?_or_comm, Option.or_assoc]

/-- **Writes in different places commute.** While the clock stands still, take two operations whose
targets differ, with neither above the other: both touch or make a folder alone, or both make a
folder with its parents. In either order each of them answers the same, with success or with an
error, and the states that they lead to have the same node at each path, the same listings and
drawings of everything, and searches that find the same paths, in an order of their own. -/
theorem writes_commute (h : fs.Reachable) (hstopped : fs.StoppedAt time)
    (hkind : a.WritesTarget ∧ b.WritesTarget ∨ a.WritesWay ∧ b.WritesWay)
    (hapart : Path.Apart (fs.resolve a.input) (fs.resolve b.input)) : fs.Commute a b := by
  rcases hkind with ⟨ha, hb⟩ | ⟨ha, hb⟩
  · exact hstopped.commute_targets h ha hb hapart
  · exact hstopped.commute_ways h ha hb hapart

/-- Two folders made with a parent that either of them may make, and a folder made alone beside a
file that cannot be made. -/
theorem writes_commute_shared :
    let state : FileSystem := { FileSystem.empty with clock := 7, readings := [7, 7, 7] }
    let a := FileOperation.makeFolder "x/a" true
    let b := FileOperation.makeFolder "x/b" true
    state.Reachable ∧ state.StoppedAt 7 ∧ state.Commute a b ∧
      state.Commute (.makeFolder "y" false) (.touch "z/w") ∧
      (state.makeFolder "x/a" true).1 = .ok "/x/a" ∧
      (state.touch "z/w").1 = .error (.notFound "/z") := by
  intro state a b
  have hempty : FileSystem.ofRecord (.folder "" []) = .ok FileSystem.empty := rfl
  have hstate : state.Reachable := Reachable.start hempty "guest" 7 [7, 7, 7]
  have hstopped : state.StoppedAt 7 := ⟨rfl, by decide⟩
  refine ⟨hstate, hstopped, ?_, ?_, by decide +kernel, by decide +kernel⟩
  · exact writes_commute hstate hstopped (.inr ⟨.makeFolder _, .makeFolder _⟩)
      (.of_notMem_way (state.isCanonical_resolve _) (state.isCanonical_resolve _)
        (by decide +kernel) (by decide +kernel))
  · exact writes_commute hstate hstopped (.inl ⟨.makeFolder _, .touch _⟩)
      (.of_notMem_way (state.isCanonical_resolve _) (state.isCanonical_resolve _)
        (by decide +kernel) (by decide +kernel))

end FileSystem

end PocketShell
