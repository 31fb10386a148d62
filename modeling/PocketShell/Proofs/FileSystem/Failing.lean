import PocketShell.Proofs.FileSystem.Drawing
import PocketShell.Proofs.FileSystem.Persistence
import PocketShell.Proofs.FileSystem.Searching

set_option autoImplicit false

/-! # When an operation fails, and what it blames

Each operation succeeds under a condition that look-ups tell. If it fails, its error names a path on
the way to the target and says of this path what is so (`FailsRightly`).

Most operations ask for one path only, the target or its parent. Making a folder with its parents
asks for a whole way, and what it meets there depends on what it has made so far. Since the existing
paths form a tree there is at most one file on the way to a path that does not exist, and what is
missing is missing from some place on; so the answer can be read off the state in which the work
starts (`makeFolder_eq`).
-/

namespace PocketShell

open PocketShell.Path (AllNames ofNames isName IsBelow)

/-- The path that an error names. -/
def FileError.path : FileError → String
  | notFound path | notAFolder path | isAFolder path | alreadyExists path => path

namespace FileSystem

variable {fs : FileSystem} {target : String} {allowed : Prop} {α : Type}

/-! ## Errors that are right -/

/-- What an error says of its path is so. -/
def Confirms (fs : FileSystem) : FileError → Prop
  | .notFound path => fs.lookup path = none
  | .notAFolder path => fs.HasFile path
  | .isAFolder path => fs.HasFolder path
  | .alreadyExists path => ∃ node, fs.lookup path = some node

/-- **An error blames a true culprit** for what is wrong with a path: it names this path or one above
it, in canonical form, and what it says of the path it names is so. -/
structure Blames (fs : FileSystem) (target : String) (e : FileError) : Prop where
  canonical : Path.IsCanonical e.path
  above : ∃ n, Path.parent^[n] target = e.path
  confirmed : fs.Confirms e

/-- **An operation on a path fails exactly when it should**: it succeeds if and only if it is allowed
to, and otherwise blames a true culprit and leaves every node as it is. -/
structure FailsRightly (fs : FileSystem) (target : String) (allowed : Prop)
    (outcome : Except FileError α × FileSystem) : Prop where
  ok_iff : (∃ result, outcome.1 = .ok result) ↔ allowed
  blames : ∀ e, outcome.1 = .error e → fs.Blames target e
  unchanged : ∀ e, outcome.1 = .error e → ∀ path, outcome.2.lookup path = fs.lookup path

theorem FailsRightly.of_ok (h : allowed) (result : α) (later : FileSystem) :
    fs.FailsRightly target allowed (.ok result, later) := by
  refine ⟨⟨fun _ => h, fun _ => ⟨result, rfl⟩⟩, ?_, ?_⟩
  · intro e he
    cases he
  · intro e he
    cases he

theorem FailsRightly.of_error {e : FileError} {later : FileSystem} (h : ¬ allowed)
    (hblames : fs.Blames target e) (hlater : ∀ path, later.lookup path = fs.lookup path) :
    fs.FailsRightly target allowed ((.error e : Except FileError α), later) := by
  refine ⟨⟨?_, fun hallowed => absurd hallowed h⟩, ?_, fun _ _ => hlater⟩
  · rintro ⟨result, hresult⟩
    cases hresult
  · intro e' he'
    rwa [← Except.error.inj he']

theorem blames_self (hp : Path.IsCanonical target) {e : FileError} (he : e.path = target)
    (h : fs.Confirms e) : fs.Blames target e :=
  ⟨he ▸ hp, ⟨0, he.symm⟩, h⟩

theorem blames_parent (hp : Path.IsCanonical target) {e : FileError}
    (he : e.path = Path.parent target) (h : fs.Confirms e) : fs.Blames target e :=
  ⟨he ▸ hp.parent, ⟨1, he.symm⟩, h⟩

/-! ## What is at one path -/

theorem isCanonical_resolve (fs : FileSystem) (input : String) :
    Path.IsCanonical (fs.resolve input) := Path.isCanonical_resolve fs.cwd input

theorem lookup_cases (fs : FileSystem) (path : String) :
    fs.lookup path = none ∨ fs.HasFile path ∨ fs.HasFolder path := by
  cases hlookup : fs.lookup path with
  | none => exact .inl rfl
  | some node =>
      cases hfolder : node.isFolder with
      | false => exact .inr (.inl ⟨node, hlookup, hfolder⟩)
      | true => exact .inr (.inr ⟨node, hlookup, hfolder⟩)

/-- What is asked to be a folder and is none is said to be missing, or to be no folder. -/
theorem confirms_of_requireFolder {path : String} {e : FileError}
    (h : fs.requireFolder path = .error e) :
    e.path = path ∧ fs.Confirms e ∧ ¬ fs.HasFolder path := by
  have hno : ¬ fs.HasFolder path := by
    intro hfolder
    obtain ⟨node, hnode⟩ := requireFolder_of_hasFolder hfolder
    rw [h] at hnode
    cases hnode
  rw [requireFolder] at h
  rcases fs.lookup_cases path with hnone | hfile | hfolder
  · rw [hnone] at h
    obtain rfl := Except.error.inj h
    exact ⟨rfl, hnone, hno⟩
  · have hconfirmed := hfile
    obtain ⟨node, hnode, hkind⟩ := hfile
    simp only [hnode, hkind, Bool.false_eq_true, if_false] at h
    obtain rfl := Except.error.inj h
    exact ⟨rfl, hconfirmed, hno⟩
  · exact absurd hfolder hno

/-! ## Operations that ask for one path -/

/-- What needs its target to exist, and nothing else. -/
theorem failsRightly_of_exists (hp : Path.IsCanonical target) {answer : Except FileError α}
    (hnone : fs.lookup target = none → answer = .error (.notFound target))
    (hsome : ∀ node, fs.lookup target = some node → ∃ result, answer = .ok result) :
    fs.FailsRightly target (∃ node, fs.lookup target = some node) (answer, fs) := by
  cases hlookup : fs.lookup target with
  | none =>
      rw [hnone hlookup]
      exact .of_error (by rintro ⟨node, hnode⟩; cases hnode) (blames_self hp rfl hlookup)
        fun _ => rfl
  | some node =>
      obtain ⟨result, hresult⟩ := hsome node hlookup
      rw [hresult]
      exact .of_ok ⟨node, rfl⟩ result fs

/-- What needs its target to be a folder, and nothing else. -/
theorem failsRightly_of_folder (hp : Path.IsCanonical target)
    {outcome : Except FileError α × FileSystem}
    (herror : ∀ e, fs.requireFolder target = .error e → outcome = (.error e, fs))
    (hfolder : fs.HasFolder target → ∃ result, outcome.1 = .ok result) :
    fs.FailsRightly target (fs.HasFolder target) outcome := by
  cases hrequire : fs.requireFolder target with
  | error e =>
      obtain ⟨hpath, hconfirmed, hno⟩ := confirms_of_requireFolder hrequire
      rw [herror e hrequire]
      exact .of_error hno (blames_self hp hpath hconfirmed) fun _ => rfl
  | ok node =>
      have hhas := hasFolder_of_requireFolder hrequire
      obtain ⟨result, hresult⟩ := hfolder hhas
      obtain ⟨answer, later⟩ := outcome
      rw [show answer = .ok result from hresult]
      exact .of_ok hhas result later

theorem read_failsRightly (fs : FileSystem) (input : String) :
    fs.FailsRightly (fs.resolve input) (fs.HasFile (fs.resolve input)) (fs.read input, fs) := by
  have hp := fs.isCanonical_resolve input
  have hread : fs.read input = fs.require (fs.resolve input) >>= fun node =>
      if node.isFolder then .error (.isAFolder (fs.resolve input))
      else .ok (node.content.getD "") := rfl
  rcases fs.lookup_cases (fs.resolve input) with hnone | hfile | hfolder
  · have hanswer : fs.read input = .error (.notFound (fs.resolve input)) := by
      rw [hread, require, hnone]
      rfl
    rw [hanswer]
    exact .of_error (not_hasFile_of_none hnone) (blames_self hp rfl hnone) fun _ => rfl
  · obtain ⟨node, hnode, hkind⟩ := hfile
    have hanswer : fs.read input = .ok (node.content.getD "") := by
      rw [hread, require, hnode]
      show (if node.isFolder then _ else _) = _
      rw [hkind]
      rfl
    rw [hanswer]
    exact .of_ok ⟨node, hnode, hkind⟩ _ fs
  · obtain ⟨node, hnode, hkind⟩ := hfolder
    have hanswer : fs.read input = .error (.isAFolder (fs.resolve input)) := by
      rw [hread, require, hnode]
      exact if_pos hkind
    rw [hanswer]
    exact .of_error (fun hfile => hfile.not_hasFolder ⟨node, hnode, hkind⟩)
      (blames_self hp rfl ⟨node, hnode, hkind⟩) fun _ => rfl

theorem report_failsRightly (fs : FileSystem) (input : String) :
    fs.FailsRightly (fs.resolve input) (∃ node, fs.lookup (fs.resolve input) = some node)
      (fs.report input, fs) := by
  refine failsRightly_of_exists (fs.isCanonical_resolve input) ?_ ?_
  · intro hnone
    simp only [report, require, hnone]
    rfl
  · intro node hnode
    simp only [report, require, hnode]
    exact ⟨_, rfl⟩

theorem list_failsRightly (fs : FileSystem) (input : String) (options : ListOptions) :
    fs.FailsRightly (fs.resolve input) (∃ node, fs.lookup (fs.resolve input) = some node)
      (fs.list (some input) options, fs) := by
  have hpath : fs.listedPath (some input) = fs.resolve input := rfl
  refine failsRightly_of_exists (fs.isCanonical_resolve input) ?_ ?_
  · intro hnone
    rw [← hpath] at hnone
    exact list_of_none hnone options
  · intro node hnode
    rw [← hpath] at hnode
    cases hkind : node.isFolder with
    | true => exact ⟨_, list_of_folder hnode hkind options⟩
    | false => exact ⟨_, list_of_file hnode hkind options⟩

theorem find_failsRightly (fs : FileSystem) (input : String) (search : Search) :
    fs.FailsRightly (fs.resolve input) (∃ node, fs.lookup (fs.resolve input) = some node)
      (fs.find input search, fs) := by
  refine failsRightly_of_exists (fs.isCanonical_resolve input) ?_ ?_
  · intro hnone
    simp only [find, require, hnone]
    rfl
  · intro node hnode
    exact ⟨_, find_eq hnode search⟩

theorem draw_failsRightly (fs : FileSystem) (input : String) (depth : Nat) :
    fs.FailsRightly (fs.resolve input) (fs.HasFolder (fs.resolve input))
      (fs.draw input depth, fs) := by
  refine failsRightly_of_folder (fs.isCanonical_resolve input) ?_ ?_
  · intro e he
    simp only [draw, he]
    rfl
  · intro hfolder
    exact ⟨_, draw_eq hfolder depth⟩

theorem changeDirectory_failsRightly (fs : FileSystem) {input : String} (hback : input ≠ "-")
    (hempty : input ≠ "") :
    fs.FailsRightly (fs.resolve input) (fs.HasFolder (fs.resolve input))
      (fs.changeDirectory input) := by
  refine failsRightly_of_folder (fs.isCanonical_resolve input) ?_ ?_
  · intro e he
    simp only [changeDirectory, if_neg hback, if_neg hempty, he]
  · intro hfolder
    obtain ⟨node, hnode⟩ := requireFolder_of_hasFolder hfolder
    simp only [changeDirectory, if_neg hback, if_neg hempty, hnode]
    exact ⟨_, rfl⟩

/-- Going back and going to the root never fail. -/
theorem changeDirectory_ok (htree : TreeClosed fs.lookup) {input : String}
    (h : input = "-" ∨ input = "") : ∃ dir, (fs.changeDirectory input).1 = .ok dir := by
  rcases h with rfl | rfl
  · exact ⟨_, fs.changeDirectory_back⟩
  · obtain ⟨node, hnode⟩ := requireFolder_of_hasFolder htree.root
    simp only [changeDirectory, if_neg (by decide : ¬ "" = "-"), if_pos, hnode]
    exact ⟨_, rfl⟩

/-! ## Operations that ask for the parent too -/

theorem touch_failsRightly (fs : FileSystem) (input : String) :
    fs.FailsRightly (fs.resolve input)
      ((∃ node, fs.lookup (fs.resolve input) = some node) ∨
        fs.HasFolder (Path.parent (fs.resolve input)))
      (fs.touch input) := by
  have hp := fs.isCanonical_resolve input
  rw [touch_eq]
  cases hlookup : fs.lookup (fs.resolve input) with
  | some node => exact .of_ok (.inl ⟨node, rfl⟩) _ _
  | none =>
      cases hrequire : fs.requireFolder (Path.parent (fs.resolve input)) with
      | error e =>
          obtain ⟨hpath, hconfirmed, hno⟩ := confirms_of_requireFolder hrequire
          refine .of_error ?_ (blames_parent hp hpath hconfirmed) fs.lookup_tick
          rintro (⟨node, hnode⟩ | hfolder)
          · cases hnode
          · exact hno hfolder
      | ok folder => exact .of_ok (.inr (hasFolder_of_requireFolder hrequire)) _ _

theorem makeFolder_alone_failsRightly (fs : FileSystem) (input : String) :
    fs.FailsRightly (fs.resolve input)
      (fs.lookup (fs.resolve input) = none ∧ fs.HasFolder (Path.parent (fs.resolve input)))
      (fs.makeFolder input false) := by
  have hp := fs.isCanonical_resolve input
  rw [makeFolder_alone_eq]
  cases hlookup : fs.lookup (fs.resolve input) with
  | some node =>
      refine .of_error ?_ (blames_self hp rfl ⟨node, hlookup⟩) fun _ => rfl
      rintro ⟨hnone, -⟩
      cases hnone
  | none =>
      cases hrequire : fs.requireFolder (Path.parent (fs.resolve input)) with
      | error e =>
          obtain ⟨hpath, hconfirmed, hno⟩ := confirms_of_requireFolder hrequire
          exact .of_error (fun h => hno h.2) (blames_parent hp hpath hconfirmed) fun _ => rfl
      | ok folder => exact .of_ok ⟨rfl, hasFolder_of_requireFolder hrequire⟩ _ _

/-! ## Making a folder with its parents -/

theorem makeFolder_above_failsRightly (h : fs.WellFormed) (htree : TreeClosed fs.lookup)
    (input : String) :
    fs.FailsRightly (fs.resolve input)
      (fs.lookup (fs.resolve input) = none ∧
        ∀ q, IsBelow q (fs.resolve input) → ¬ fs.HasFile q)
      (fs.makeFolder input true) := by
  have hp := fs.isCanonical_resolve input
  rw [h.makeFolder_eq htree]
  cases hlookup : fs.lookup (fs.resolve input) with
  | some node =>
      refine .of_error ?_ (blames_self hp rfl ⟨node, hlookup⟩) fun _ => rfl
      rintro ⟨hnone, -⟩
      cases hnone
  | none =>
      cases hobstacle : fs.obstacle? (fs.resolve input) with
      | some q =>
          obtain ⟨hway, hfile⟩ := mem_way_of_obstacle? hobstacle
          have habove := hp.mem_way_iff.mp hway
          refine .of_error ?_ ⟨hp.of_mem_way hway, habove, hfile⟩ fun _ => rfl
          -- the target does not exist, so the file is above it
          rintro ⟨-, hfiles⟩
          refine hfiles q ⟨?_, habove⟩ hfile
          intro heq
          exact not_hasFile_of_none (heq ▸ hlookup) hfile
      | none =>
          refine .of_ok ⟨rfl, fun q hbelow hfile => ?_⟩ _ _
          rw [obstacle?, List.find?_eq_none] at hobstacle
          exact hobstacle q (hp.mem_way_iff.mpr hbelow.2) (decide_eq_true hfile)

/-! ## All operations -/

/-- **Operations fail exactly when they should, and blame a true culprit.** Going to a directory needs
a folder, and going back or to the root never fails; reading needs a file; listing, reporting and
searching need any node, and drawing a folder. Touching needs the target, or else a folder to put it
in. Making a folder needs the target to be free, and a folder to put it in, or, with `parents`, that
no file is above it. Every error names the target or a path above it, says of it what is so, and
comes with no node changed. -/
theorem operations_failRightly (h : fs.Reachable) (input : String) :
    (input ≠ "-" → input ≠ "" → fs.FailsRightly (fs.resolve input)
      (fs.HasFolder (fs.resolve input)) (fs.changeDirectory input)) ∧
    (input = "-" ∨ input = "" → ∃ dir, (fs.changeDirectory input).1 = .ok dir) ∧
    fs.FailsRightly (fs.resolve input) (fs.HasFile (fs.resolve input)) (fs.read input, fs) ∧
    (∀ options, fs.FailsRightly (fs.resolve input)
      (∃ node, fs.lookup (fs.resolve input) = some node) (fs.list (some input) options, fs)) ∧
    fs.FailsRightly (fs.resolve input)
      (∃ node, fs.lookup (fs.resolve input) = some node) (fs.report input, fs) ∧
    (∀ search, fs.FailsRightly (fs.resolve input)
      (∃ node, fs.lookup (fs.resolve input) = some node) (fs.find input search, fs)) ∧
    (∀ depth, fs.FailsRightly (fs.resolve input)
      (fs.HasFolder (fs.resolve input)) (fs.draw input depth, fs)) ∧
    fs.FailsRightly (fs.resolve input)
      ((∃ node, fs.lookup (fs.resolve input) = some node) ∨
        fs.HasFolder (Path.parent (fs.resolve input)))
      (fs.touch input) ∧
    fs.FailsRightly (fs.resolve input)
      (fs.lookup (fs.resolve input) = none ∧ fs.HasFolder (Path.parent (fs.resolve input)))
      (fs.makeFolder input false) ∧
    fs.FailsRightly (fs.resolve input)
      (fs.lookup (fs.resolve input) = none ∧
        ∀ q, IsBelow q (fs.resolve input) → ¬ fs.HasFile q)
      (fs.makeFolder input true) := by
  have hlisted := h.listed
  exact ⟨fs.changeDirectory_failsRightly, changeDirectory_ok hlisted.treeClosed,
    fs.read_failsRightly input, fs.list_failsRightly input, fs.report_failsRightly input,
    fs.find_failsRightly input, fs.draw_failsRightly input, fs.touch_failsRightly input,
    fs.makeFolder_alone_failsRightly input,
    makeFolder_above_failsRightly hlisted.wellFormed hlisted.treeClosed input⟩

/-- Below a file that a folder of the base has got: with its parents a folder cannot be made because
of the file, alone because its parent is missing. -/
theorem operations_failRightly_below :
    let base := (Base.none.addRecord Path.root (.folder "" [.folder "home" []])).1
    let state := (({ base } : FileSystem).perform (.touch "home/note")).2
    state.Reachable ∧
      (state.makeFolder "home/note/a/b" true).1 = .error (.notAFolder "/home/note") ∧
      state.Blames "/home/note/a/b" (.notAFolder "/home/note") ∧
      (state.makeFolder "home/note/a/b" false).1 = .error (.notFound "/home/note/a") ∧
      state.Blames "/home/note/a/b" (.notFound "/home/note/a") ∧
      (∃ text, state.read "home/note" = .ok text) ∧
      ¬ ∃ dir, (state.changeDirectory "home/note").1 = .ok dir := by
  intro base state
  have hrecord : FileSystem.ofRecord (.folder "" [.folder "home" []]) = .ok { base } := rfl
  have hstate : state.Reachable := (Reachable.start hrecord "guest" 0 []).step _
  have hfile : state.HasFile "/home/note" := by decide +kernel
  have hnote : state.resolve "home/note" = "/home/note" := by decide +kernel
  have hdeep : state.resolve "home/note/a/b" = "/home/note/a/b" := by decide +kernel
  have habove : (state.makeFolder "home/note/a/b" true).1 = .error (.notAFolder "/home/note") := by
    decide +kernel
  have halone : (state.makeFolder "home/note/a/b" false).1 = .error (.notFound "/home/note/a") := by
    decide +kernel
  obtain ⟨-, -, -, -, -, -, -, -, hmakeAlone, hmakeAbove⟩ :=
    operations_failRightly hstate "home/note/a/b"
  obtain ⟨hcd, -, hread, -⟩ := operations_failRightly hstate "home/note"
  rw [hdeep] at hmakeAlone hmakeAbove
  rw [hnote] at hread hcd
  refine ⟨hstate, habove, hmakeAbove.blames _ habove, halone, hmakeAlone.blames _ halone,
    hread.ok_iff.mpr hfile, fun hok => ?_⟩
  exact hfile.not_hasFolder ((hcd (by decide) (by decide)).ok_iff.mp hok)

end FileSystem

end PocketShell
