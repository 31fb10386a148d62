import PocketShell.FileSystem.Basic
import PocketShell.Proofs.Outcome
import Mathlib.Tactic

set_option autoImplicit false

/-! # Runs of a file system

The operations that change a file system, as data, so that runs of any length are lists of
operations. A state is reachable when such a run leads to it from the file system over a
record, whatever the clock shows at each reading.
-/

namespace PocketShell

/-- An operation that may change a file system, with what the user typed. -/
inductive FileOperation where
  | changeDirectory (input : String)
  | makeFolder (input : String) (parents : Bool)
  | touch (input : String)
deriving DecidableEq, Repr

/-- What an operation answers: the path of a folder, or what touching did. -/
inductive FileAnswer where
  | path (answer : Except FileError String)
  | touched (answer : Except FileError Touched)

namespace FileSystem

/-- Performs one operation. -/
def perform (fs : FileSystem) : FileOperation → FileAnswer × FileSystem
  | .changeDirectory input => (fs.changeDirectory input).map .path id
  | .makeFolder input parents => (fs.makeFolder input parents).map .path id
  | .touch input => (fs.touch input).map .touched id

theorem perform_makeFolder (fs : FileSystem) (input : String) (parents : Bool) :
    fs.perform (.makeFolder input parents)
      = (.path (fs.makeFolder input parents).1, (fs.makeFolder input parents).2) := rfl

theorem perform_touch (fs : FileSystem) (input : String) :
    fs.perform (.touch input) = (.touched (fs.touch input).1, (fs.touch input).2) := rfl

/-- Performs the operations one after the other, and gives all answers. -/
def run (fs : FileSystem) : List FileOperation → List FileAnswer × FileSystem
  | [] => ([], fs)
  | operation :: rest =>
      let first := fs.perform operation
      let others := first.2.run rest
      (first.1 :: others.1, others.2)

/-- **The states of a file system**: a run of operations, answered with success or with an
error, leads to them from the file system over some record. -/
inductive Reachable : FileSystem → Prop where
  | start {record : TreeRecord} {fs : FileSystem} (h : ofRecord record = .ok fs)
      (owner : String) (clock : Nat) (readings : List Nat) :
      Reachable { fs with owner, clock, readings }
  | step {fs : FileSystem} (h : Reachable fs) (operation : FileOperation) :
      Reachable (fs.perform operation).2

/-! ## Writing changes nodes and reads the clock -/

/-- **Only nodes and the clock differ**: the base, the directories and the owner are the same. -/
def OnlyWrites (fs later : FileSystem) : Prop :=
  ∃ overlay clock readings, later = { fs with overlay, clock, readings }

theorem onlyWrites_refl (fs : FileSystem) : fs.OnlyWrites fs := ⟨_, _, _, rfl⟩

theorem OnlyWrites.trans {a b c : FileSystem} (hab : a.OnlyWrites b) (hbc : b.OnlyWrites c) :
    a.OnlyWrites c := by
  obtain ⟨_, _, _, rfl⟩ := hab
  obtain ⟨_, _, _, rfl⟩ := hbc
  exact ⟨_, _, _, rfl⟩

theorem onlyWrites_put (fs : FileSystem) (path : String) (node : Node) :
    fs.OnlyWrites (fs.put path node) := ⟨_, _, _, rfl⟩

theorem onlyWrites_tick (fs : FileSystem) : fs.OnlyWrites fs.tick := by
  rw [tick]
  cases fs.readings with
  | nil => exact fs.onlyWrites_refl
  | cons time later => exact ⟨_, _, _, rfl⟩

theorem onlyWrites_makeFolders (fs : FileSystem) (dir : String) (segments : List String) :
    fs.OnlyWrites (fs.makeFolders dir segments).2 := by
  induction segments generalizing fs dir with
  | nil => exact fs.onlyWrites_refl
  | cons segment rest ih =>
      simp only [makeFolders]
      split
      · split_ifs
        · exact ih fs _
        · exact fs.onlyWrites_refl
      · exact (fs.onlyWrites_put _ _).trans ((onlyWrites_tick _).trans (ih _ _))

theorem onlyWrites_makeFolder (fs : FileSystem) (input : String) (parents : Bool) :
    fs.OnlyWrites (fs.makeFolder input parents).2 := by
  have hmake := fs.onlyWrites_makeFolders Path.root (segmentsOf (Path.parent (fs.resolve input)))
  have hput : ∀ (made : FileSystem) (path : String) (node : Node),
      made.OnlyWrites (made.put path node).tick := fun made path node =>
    (made.onlyWrites_put path node).trans (onlyWrites_tick _)
  simp only [makeFolder]
  split
  · exact fs.onlyWrites_refl
  · split
    · split_ifs
      · exact hput fs _ _
      · exact fs.onlyWrites_refl
    · split_ifs
      · split
        · next made heq =>
            rw [heq] at hmake
            exact hmake.trans (hput made _ _)
        · next e made heq =>
            rw [heq] at hmake
            exact hmake
      · exact fs.onlyWrites_refl

theorem onlyWrites_touch (fs : FileSystem) (input : String) :
    fs.OnlyWrites (fs.touch input).2 := by
  simp only [touch]
  split
  · exact fs.onlyWrites_tick.trans (onlyWrites_put _ _ _)
  · split
    · exact fs.onlyWrites_tick
    · exact fs.onlyWrites_tick.trans (onlyWrites_put _ _ _)

/-! ## What stays -/

theorem OnlyWrites.base_eq {fs later : FileSystem} (h : fs.OnlyWrites later) :
    later.base = fs.base := by
  obtain ⟨_, _, _, rfl⟩ := h
  rfl

theorem OnlyWrites.cwd_eq {fs later : FileSystem} (h : fs.OnlyWrites later) :
    later.cwd = fs.cwd := by
  obtain ⟨_, _, _, rfl⟩ := h
  rfl

/-- An input names the same path from the same working directory. -/
theorem resolve_of_cwd_eq {fs other : FileSystem} (hcwd : other.cwd = fs.cwd) (input : String) :
    other.resolve input = fs.resolve input := by
  rw [resolve, hcwd, resolve]

theorem OnlyWrites.owner_eq {fs later : FileSystem} (h : fs.OnlyWrites later) :
    later.owner = fs.owner := by
  obtain ⟨_, _, _, rfl⟩ := h
  rfl

theorem base_changeDirectory (fs : FileSystem) (input : String) :
    (fs.changeDirectory input).2.base = fs.base := by
  simp only [changeDirectory]
  split
  · split <;> rfl
  · split <;> rfl

/-- **No operation changes the base.** -/
theorem base_perform (fs : FileSystem) (operation : FileOperation) :
    (fs.perform operation).2.base = fs.base := by
  cases operation with
  | changeDirectory input => exact fs.base_changeDirectory input
  | makeFolder input parents => exact (fs.onlyWrites_makeFolder input parents).base_eq
  | touch input => exact (fs.onlyWrites_touch input).base_eq

theorem exists_of_ofRecord {record : TreeRecord} {fs : FileSystem} (h : ofRecord record = .ok fs) :
    ∃ base, Base.ofRecord record = .ok base ∧ fs = { base } := by
  obtain ⟨base, hbase, heq⟩ := exists_of_map_ok h
  exact ⟨base, hbase, heq.symm⟩

theorem Reachable.exists_record {fs : FileSystem} (h : fs.Reachable) :
    ∃ record, Base.ofRecord record = .ok fs.base := by
  induction h with
  | @start record fs h _ _ _ =>
      obtain ⟨base, hbase, rfl⟩ := exists_of_ofRecord h
      exact ⟨record, hbase⟩
  | step _ operation ih =>
      rw [base_perform]
      exact ih

end FileSystem

end PocketShell
