import PocketShell.Proofs.FileSystem.Persistence

set_option autoImplicit false

/-! # The way back

An operation that goes to a folder leaves the working directory (`FileSystem.departures`); any other
operation leaves none, also when it fails. What is left is put on a stack, and `-` takes it off
again, so that going back as often as something was left leads through the same directories in
reverse order to where it began (`FileSystem.run_back_departures`).

A file system may also keep the working directory beside the list of all directories gone through,
and change each of them for itself (`Trail`). In all its states the working directory is the last of
the list, and it answers as the file system does (`FileSystem.run_trail`).
-/

namespace PocketShell

/-- Going back. -/
def FileOperation.goBack : FileOperation := .changeDirectory "-"

/-- Whether an operation was answered by going to a folder. -/
def FileAnswer.isMove : FileOperation × FileAnswer → Bool
  | (.changeDirectory _, .path (.ok _)) => true
  | _ => false

namespace FileSystem

variable {fs : FileSystem}

/-! ## Directories that are left -/

/-- The working directory, if the operation leaves it for another folder or for itself. -/
def departure? (fs : FileSystem) (operation : FileOperation) : Option String :=
  if FileAnswer.isMove (operation, (fs.perform operation).1) then some fs.cwd else none

/-- The working directories that a run leaves, the first one first. -/
def departures (fs : FileSystem) : List FileOperation → List String
  | [] => []
  | operation :: rest =>
      (fs.departure? operation).toList ++ (fs.perform operation).2.departures rest

theorem departures_cons (fs : FileSystem) (operation : FileOperation)
    (rest : List FileOperation) :
    fs.departures (operation :: rest)
      = (fs.departure? operation).toList ++ (fs.perform operation).2.departures rest := rfl

/-- **As many directories are left as folders are gone to.** -/
theorem length_departures (fs : FileSystem) (operations : List FileOperation) :
    (fs.departures operations).length
      = (operations.zip (fs.run operations).1).countP FileAnswer.isMove := by
  induction operations generalizing fs with
  | nil => rfl
  | cons operation rest ih =>
      rw [departures_cons, List.length_append, ih, departure?, run, List.zip_cons_cons,
        List.countP_cons, Nat.add_comm]
      split_ifs <;> rfl

theorem OnlyWrites.earlier_eq {later : FileSystem} (h : fs.OnlyWrites later) :
    later.earlier = fs.earlier := by
  obtain ⟨_, _, _, rfl⟩ := h
  rfl

/-- **What an operation does to the directories**, if it does not go back: it puts the working
directory on the stack, or it leaves both alone. -/
theorem departs_or_stays {operation : FileOperation} (h : operation ≠ .goBack) :
    (fs.departure? operation = some fs.cwd ∧
        (fs.perform operation).2.earlier = fs.cwd :: fs.earlier) ∨
      (fs.departure? operation = none ∧
        (fs.perform operation).2.cwd = fs.cwd ∧ (fs.perform operation).2.earlier = fs.earlier) := by
  cases operation with
  | changeDirectory input =>
      have hinput : input ≠ "-" := fun heq => h (congrArg _ heq)
      simp only [departure?, perform, changeDirectory, if_neg hinput]
      split
      · exact .inr ⟨rfl, rfl, rfl⟩
      · exact .inl ⟨rfl, rfl⟩
  | makeFolder input parents =>
      have hwrites := fs.onlyWrites_makeFolder input parents
      exact .inr ⟨rfl, hwrites.cwd_eq, hwrites.earlier_eq⟩
  | touch input =>
      have hwrites := fs.onlyWrites_touch input
      exact .inr ⟨rfl, hwrites.cwd_eq, hwrites.earlier_eq⟩

/-- **What a run leaves stands on the stack**, the last one first. -/
theorem earlier_run {operations : List FileOperation}
    (h : ∀ operation ∈ operations, operation ≠ .goBack) :
    (fs.run operations).2.earlier = (fs.departures operations).reverse ++ fs.earlier := by
  induction operations generalizing fs with
  | nil => rfl
  | cons operation rest ih =>
      obtain ⟨hfirst, hrest⟩ := List.forall_mem_cons.mp h
      have hrun : (fs.run (operation :: rest)).2 = ((fs.perform operation).2.run rest).2 := rfl
      rw [hrun, ih hrest, departures_cons]
      rcases departs_or_stays hfirst with ⟨hleft, hearlier⟩ | ⟨hnone, -, hearlier⟩
      · rw [hleft, hearlier]
        simp
      · rw [hnone, hearlier]
        simp

/-- What a run leaves first is where it began; if it leaves nothing, it is there at the end. -/
theorem head?_departures {operations : List FileOperation}
    (h : ∀ operation ∈ operations, operation ≠ .goBack) :
    (fs.departures operations).head?.getD (fs.run operations).2.cwd = fs.cwd := by
  induction operations generalizing fs with
  | nil => rfl
  | cons operation rest ih =>
      obtain ⟨hfirst, hrest⟩ := List.forall_mem_cons.mp h
      rw [departures_cons]
      rcases departs_or_stays hfirst with ⟨hleft, -⟩ | ⟨hnone, hcwd, -⟩
      · rw [hleft]
        rfl
      · rw [hnone, ← hcwd]
        exact ih hrest

/-! ## Going back -/

theorem perform_goBack_of_nil (h : fs.earlier = []) :
    fs.perform .goBack = (.path (.ok fs.cwd), fs) := by
  rw [FileOperation.goBack, perform, changeDirectory, if_pos rfl, h]
  rfl

theorem perform_goBack_of_cons {previous : String} {earlier : List String}
    (h : fs.earlier = previous :: earlier) :
    fs.perform .goBack = (.path (.ok previous), { fs with cwd := previous, earlier }) := by
  rw [FileOperation.goBack, perform, changeDirectory, if_pos rfl, h]
  rfl

/-- **Going back takes directories off the stack**, one each time, and changes nothing else. -/
theorem run_goBack {dirs rest : List String} (h : fs.earlier = dirs ++ rest) :
    fs.run (List.replicate dirs.length .goBack)
      = (dirs.map fun dir => .path (.ok dir),
          { fs with cwd := dirs.getLast?.getD fs.cwd, earlier := rest }) := by
  induction dirs generalizing fs with
  | nil =>
      rw [List.nil_append] at h
      subst h
      rfl
  | cons dir dirs ih =>
      rw [List.length_cons, List.replicate_succ, run, perform_goBack_of_cons h]
      rw [ih rfl]
      -- the working directory at the end is the last one taken off
      cases dirs with
      | nil => rfl
      | cons next dirs => rfl

/-- **Going back stays** where nothing was left. -/
theorem run_goBack_of_nil (h : fs.earlier = []) (n : Nat) :
    fs.run (List.replicate n .goBack) = (List.replicate n (.path (.ok fs.cwd)), fs) := by
  induction n with
  | zero => rfl
  | succ n ih =>
      rw [List.replicate_succ, run, perform_goBack_of_nil h, List.replicate_succ]
      rw [ih]

/-- **Going back as often as something was left** leads through the directories that were left, in
reverse order. At the end only what was written is different. -/
theorem run_back_departures {operations : List FileOperation}
    (h : ∀ operation ∈ operations, operation ≠ .goBack) :
    (fs.run operations).2.run (List.replicate (fs.departures operations).length .goBack)
      = ((fs.departures operations).reverse.map fun dir => .path (.ok dir),
          { (fs.run operations).2 with cwd := fs.cwd, earlier := fs.earlier }) := by
  have hearlier : (fs.run operations).2.earlier = (fs.departures operations).reverse ++ fs.earlier :=
    earlier_run h
  have hback := run_goBack hearlier
  rwa [List.length_reverse, List.getLast?_reverse, head?_departures h] at hback

end FileSystem

/-! ## The first directory -/

/-- The first of the directories stays. -/
theorem DirectoryStack.head?_after {visited : List String} (h : visited ≠ [])
    (operation : FileOperation) (answer : FileAnswer) :
    (after visited operation answer).head? = visited.head? := by
  unfold after
  split
  · split_ifs with hback hlen
    · cases visited with
      | nil => exact absurd rfl h
      | cons first more =>
          cases more with
          -- an only directory is not dropped
          | nil => exact absurd hlen (Nat.lt_irrefl 1)
          | cons second more => rfl
    · rfl
    · split
      · exact List.head?_append_of_ne_nil _ h
      · rfl
  · rfl

namespace FileSystem

/-- **Every run has begun at the root.** -/
theorem Reachable.head?_directories {fs : FileSystem} (h : fs.Reachable) :
    fs.directories.head? = some Path.root := by
  induction h with
  | start h owner clock readings =>
      obtain ⟨base, -, rfl⟩ := exists_of_ofRecord h
      rfl
  | step h operation ih =>
      rw [directories_perform, DirectoryStack.head?_after (directories_ne_nil _), ih]

/-- The working directory is the only one gone through where nothing was left. -/
theorem length_directories_eq_one_iff {fs : FileSystem} :
    fs.directories.length = 1 ↔ fs.earlier = [] := by
  simp [directories]

end FileSystem

/-! ## A list of the directories beside the working directory -/

/-- A file system that keeps all directories gone through in a list, the latest one last, and the
working directory beside it. The stack of the file system is not used. -/
structure Trail where
  files : FileSystem
  visited : List String

namespace Trail

/-- Goes to a folder or back. Going back drops the last directory, unless it is the only one, and
makes the last of those left the working directory. -/
def changeDirectory (trail : Trail) (input : String) : Except FileError String × Trail :=
  if input = "-" then
    let visited := if 1 < trail.visited.length then trail.visited.dropLast else trail.visited
    let cwd := visited.getLast?.getD trail.files.cwd
    (.ok cwd, { files := { trail.files with cwd }, visited })
  else
    let target := if input = "" then Path.root else trail.files.resolve input
    match trail.files.requireFolder target with
    | .error e => (.error e, trail)
    | .ok _ => (.ok target,
        { files := { trail.files with cwd := target }, visited := trail.visited ++ [target] })

/-- Performs one operation. -/
def perform (trail : Trail) : FileOperation → FileAnswer × Trail
  | .changeDirectory input => (trail.changeDirectory input).map .path id
  | .makeFolder input parents =>
      (trail.files.makeFolder input parents).map .path fun files => { trail with files }
  | .touch input => (trail.files.touch input).map .touched fun files => { trail with files }

/-- Performs the operations one after the other, and gives all answers. -/
def run (trail : Trail) : List FileOperation → List FileAnswer × Trail
  | [] => ([], trail)
  | operation :: rest =>
      let first := trail.perform operation
      let others := first.2.run rest
      (first.1 :: others.1, others.2)

/-- The states that operations lead to from a file system over some record, with the root as the
working directory and the only one gone through. -/
inductive Reachable : Trail → Prop where
  | start {record : TreeRecord} {fs : FileSystem} (h : FileSystem.ofRecord record = .ok fs)
      (owner : String) (clock : Nat) (readings : List Nat) :
      Reachable { files := { fs with owner, clock, readings }, visited := [Path.root] }
  | step {trail : Trail} (h : Reachable trail) (operation : FileOperation) :
      Reachable (trail.perform operation).2

end Trail

namespace FileSystem

variable {fs : FileSystem}

/-- The file system with another stack. -/
def withEarlier (fs : FileSystem) (earlier : List String) : FileSystem := { fs with earlier }

/-- The file system with its directories in a list. -/
def trail (fs : FileSystem) : Trail := { files := fs.withEarlier [], visited := fs.directories }

/-! Writing does not look at the stack. -/

section

variable (fs) (earlier : List String)

theorem lookup_withEarlier (path : String) :
    (fs.withEarlier earlier).lookup path = fs.lookup path := rfl

theorem requireFolder_withEarlier (path : String) :
    (fs.withEarlier earlier).requireFolder path = fs.requireFolder path := rfl

theorem resolve_withEarlier (input : String) :
    (fs.withEarlier earlier).resolve input = fs.resolve input := rfl

theorem put_withEarlier (path : String) (node : Node) :
    (fs.withEarlier earlier).put path node = (fs.put path node).withEarlier earlier := rfl

theorem clock_withEarlier : (fs.withEarlier earlier).clock = fs.clock := rfl

theorem tick_withEarlier : (fs.withEarlier earlier).tick = fs.tick.withEarlier earlier := by
  obtain ⟨base, overlay, cwd, _, owner, clock, readings⟩ := fs
  cases readings <;> rfl

theorem makeFolders_withEarlier (dir : String) (segments : List String) :
    (fs.withEarlier earlier).makeFolders dir segments
      = (fs.makeFolders dir segments).map id (withEarlier · earlier) := by
  induction segments generalizing fs dir with
  | nil => rfl
  | cons segment rest ih =>
      simp only [makeFolders, lookup_withEarlier, put_withEarlier, tick_withEarlier,
        clock_withEarlier]
      split
      · split_ifs
        · exact ih fs _
        · rfl
      · exact ih _ _

theorem makeFolder_withEarlier (input : String) (parents : Bool) :
    (fs.withEarlier earlier).makeFolder input parents
      = (fs.makeFolder input parents).map id (withEarlier · earlier) := by
  simp only [makeFolder, lookup_withEarlier, resolve_withEarlier, put_withEarlier,
    tick_withEarlier, clock_withEarlier, makeFolders_withEarlier]
  split
  · rfl
  · split
    · split_ifs <;> rfl
    · split_ifs
      · generalize fs.makeFolders Path.root _ = outcome
        obtain ⟨answer, made⟩ := outcome
        cases answer with
        | error e => rfl
        | ok folder =>
            simp only [Prod.map, id, put_withEarlier, tick_withEarlier, clock_withEarlier]
      · rfl

theorem touch_withEarlier (input : String) :
    (fs.withEarlier earlier).touch input
      = (fs.touch input).map id (withEarlier · earlier) := by
  simp only [touch_eq, lookup_withEarlier, requireFolder_withEarlier, resolve_withEarlier,
    put_withEarlier, tick_withEarlier, clock_withEarlier]
  split <;> rfl

end

/-- Going to a folder or back is the same in both. -/
theorem changeDirectory_trail (fs : FileSystem) (input : String) :
    fs.trail.changeDirectory input = (fs.changeDirectory input).map id trail := by
  simp only [Trail.changeDirectory, changeDirectory]
  by_cases hback : input = "-"
  · rw [if_pos hback, if_pos hback]
    cases hearlier : fs.earlier with
    | nil => simp [trail, directories, withEarlier, hearlier]
    | cons previous earlier => simp [trail, directories, withEarlier, hearlier]
  · rw [if_neg hback, if_neg hback]
    have hrequire : ∀ path, fs.trail.files.requireFolder path = fs.requireFolder path :=
      fs.requireFolder_withEarlier []
    have hresolve : fs.trail.files.resolve input = fs.resolve input := rfl
    simp only [hrequire, hresolve]
    generalize (if input = "" then Path.root else fs.resolve input) = target
    cases fs.requireFolder target with
    | error e => rfl
    | ok node => simp [trail, directories, withEarlier]

/-- **Both answer alike**, operation by operation. -/
theorem perform_trail (fs : FileSystem) (operation : FileOperation) :
    fs.trail.perform operation = (fs.perform operation).map id trail := by
  cases operation with
  | changeDirectory input =>
      rw [Trail.perform, changeDirectory_trail]
      rfl
  | makeFolder input parents =>
      have hdirectories := (fs.onlyWrites_makeFolder input parents).directories_eq
      simp only [Trail.perform, perform, trail, makeFolder_withEarlier, Prod.map, id, hdirectories]
  | touch input =>
      have hdirectories := (fs.onlyWrites_touch input).directories_eq
      simp only [Trail.perform, perform, trail, touch_withEarlier, Prod.map, id, hdirectories]

theorem run_trail (fs : FileSystem) (operations : List FileOperation) :
    fs.trail.run operations = (fs.run operations).map id trail := by
  induction operations generalizing fs with
  | nil => rfl
  | cons operation rest ih =>
      simp only [Trail.run, run, perform_trail, Prod.map, id, ih]

/-- **The states are the same**: those with the directories in a list are those of the file
systems. -/
theorem reachable_trail_iff {trail : Trail} :
    trail.Reachable ↔ ∃ fs : FileSystem, fs.Reachable ∧ fs.trail = trail := by
  constructor
  · intro h
    induction h with
    | @start record fs h owner clock readings =>
        refine ⟨_, .start h owner clock readings, ?_⟩
        -- nothing was left yet, so the list holds the root alone
        obtain ⟨base, -, rfl⟩ := exists_of_ofRecord h
        rfl
    | step h operation ih =>
        obtain ⟨fs, hfs, rfl⟩ := ih
        refine ⟨_, hfs.step operation, ?_⟩
        rw [perform_trail]
        rfl
  · rintro ⟨fs, h, rfl⟩
    induction h with
    | start h owner clock readings =>
        obtain ⟨base, -, rfl⟩ := exists_of_ofRecord h
        exact .start h owner clock readings
    | @step fs _ operation ih =>
        have hstep := ih.step operation
        rwa [perform_trail] at hstep

/-- **Directory changes form a stack.** From any state and after any operations that do not go
back, going back as often as a folder was gone to never fails, leads through the directories that
were left, the last one first, and ends in the same directory with the same directories behind it.
Where only the first directory is left, which is the root, going back stays. File systems that keep
their directories in a list, beside the working directory, have the same states and answer the same
to all operations. -/
theorem Reachable.way_back (h : fs.Reachable) {operations : List FileOperation}
    (hforward : ∀ operation ∈ operations, operation ≠ .goBack) :
    let moved := fs.run operations
    let moves := (operations.zip moved.1).countP FileAnswer.isMove
    let returned := moved.2.run (List.replicate moves .goBack)
    ((fs.departures operations).length = moves ∧
        returned.1 = (fs.departures operations).reverse.map (fun dir => .path (.ok dir)) ∧
        returned.2.cwd = fs.cwd ∧ returned.2.directories = fs.directories) ∧
      (fs.directories.length = 1 → fs.cwd = Path.root ∧
        ∀ n, fs.run (List.replicate n .goBack) = (List.replicate n (.path (.ok fs.cwd)), fs)) ∧
      (∀ trail : Trail, trail.Reachable ↔ ∃ fs : FileSystem, fs.Reachable ∧ fs.trail = trail) ∧
        ∀ operations, fs.trail.run operations = (fs.run operations).map id trail := by
  intro moved moves returned
  have hlength : (fs.departures operations).length = moves := fs.length_departures operations
  have hreturned : returned = _ := hlength ▸ run_back_departures hforward
  refine ⟨⟨hlength, ?_, ?_, ?_⟩, fun hone => ⟨?_, ?_⟩, fun _ => reachable_trail_iff,
    fs.run_trail⟩
  · rw [hreturned]
  · rw [hreturned]
  · rw [hreturned]
    rfl
  · have hnil := length_directories_eq_one_iff.mp hone
    have hfirst := h.head?_directories
    rw [directories, hnil] at hfirst
    exact Option.some.inj hfirst
  · exact run_goBack_of_nil (length_directories_eq_one_iff.mp hone)

/-- A run of four moves, one of them to the folder where it is, with a step to nowhere and one into
a file, and the way back. -/
theorem way_back_four :
    let fs := (FileSystem.empty.perform (.makeFolder "a/b" true)).2
    let operations : List FileOperation := [.changeDirectory "a", .changeDirectory "x", .touch "f",
      .changeDirectory ".", .makeFolder "c" false, .changeDirectory "b/../c",
      .changeDirectory "../f", .changeDirectory ""]
    fs.Reachable ∧ (∀ operation ∈ operations, operation ≠ .goBack) ∧
      fs.departures operations = ["/", "/a", "/a", "/a/c"] ∧
      let returned := (fs.run operations).2.run (List.replicate 4 .goBack)
      returned.1 = ["/a/c", "/a", "/a", "/"].map (fun dir => .path (.ok dir)) ∧
        returned.2.cwd = "/" ∧ returned.2.directories = ["/"] := by
  intro fs operations
  have hempty : FileSystem.ofRecord (.folder "" []) = .ok FileSystem.empty := rfl
  have hreachable : fs.Reachable := (Reachable.start hempty "guest" 0 []).step _
  have hforward : ∀ operation ∈ operations, operation ≠ .goBack := by decide
  have hleft : fs.departures operations = ["/", "/a", "/a", "/a/c"] := by decide +kernel
  have hcwd : fs.cwd = "/" := rfl
  have hdirectories : fs.directories = ["/"] := rfl
  obtain ⟨⟨hlength, hback⟩, -⟩ := hreachable.way_back hforward
  rw [← hlength, hleft, hcwd, hdirectories] at hback
  exact ⟨hreachable, hforward, hleft, hback⟩

end FileSystem

end PocketShell
