import PocketShell.Proofs.FileSystem.Operations
import PocketShell.Shell.Basic

set_option autoImplicit false

/-! # What a computation changes

A computation of the shell may change the whole workspace. Most change nothing, and the others
change one part of it. An `Effect` says which part that is; the files may change only in the
ways in which operations on files change them.

A computation has an effect if, from any workspace and in any surroundings, it leaves one that
the effect allows, also where it ends with an error (`ShellM.HasEffect`). What a computation
sets may depend on what it has found in the workspace, so the steps are proved for the
workspace in which they begin (`ShellM.EffectAt`).
-/

namespace PocketShell

/-- The part of the workspace that a computation may change. -/
inductive Effect where
  | nothing
  | files
  | aliases
  | env
  | desktop
deriving DecidableEq, Repr

namespace Effect

/-- Whether the effect allows to go from one workspace to another. -/
def Allows (effect : Effect) (before after : Workspace) : Prop :=
  match effect with
  | nothing => after = before
  | files => ∃ operations, after = { before with files := (before.files.run operations).2 }
  | aliases => ∃ aliases, after = { before with aliases }
  | env => ∃ env, after = { before with env }
  | desktop => ∃ desktop, after = { before with desktop }

theorem allows_refl (effect : Effect) (workspace : Workspace) :
    effect.Allows workspace workspace := by
  cases effect with
  | nothing => exact rfl
  | files => exact ⟨[], rfl⟩
  | aliases => exact ⟨workspace.aliases, rfl⟩
  | env => exact ⟨workspace.env, rfl⟩
  | desktop => exact ⟨workspace.desktop, rfl⟩

end Effect

namespace FileSystem

/-- A run of some operations and then of others. -/
theorem run_append (fs : FileSystem) (first second : List FileOperation) :
    (fs.run (first ++ second)).2 = ((fs.run first).2.run second).2 := by
  induction first generalizing fs with
  | nil => rfl
  | cons operation first ih => exact ih (fs.perform operation).2

end FileSystem

theorem Effect.Allows.trans {effect : Effect} {a b c : Workspace} (hab : effect.Allows a b)
    (hbc : effect.Allows b c) : effect.Allows a c := by
  cases effect with
  | nothing => exact Eq.trans hbc hab
  | files =>
      obtain ⟨first, rfl⟩ := hab
      obtain ⟨second, rfl⟩ := hbc
      refine ⟨first ++ second, ?_⟩
      rw [FileSystem.run_append]
  | aliases =>
      obtain ⟨_, rfl⟩ := hab
      obtain ⟨aliases, rfl⟩ := hbc
      exact ⟨aliases, rfl⟩
  | env =>
      obtain ⟨_, rfl⟩ := hab
      obtain ⟨env, rfl⟩ := hbc
      exact ⟨env, rfl⟩
  | desktop =>
      obtain ⟨_, rfl⟩ := hab
      obtain ⟨desktop, rfl⟩ := hbc
      exact ⟨desktop, rfl⟩

namespace ShellM

variable {α β : Type} {effect : Effect} {workspace : Workspace}

/-- Begun in the workspace, the computation leaves one that the effect allows. -/
def EffectAt (effect : Effect) (workspace : Workspace) (x : ShellM α) : Prop :=
  ∀ surroundings, effect.Allows workspace ((x.run surroundings).run workspace).2

/-- **The computation changes nothing but what the effect allows.** -/
def HasEffect (effect : Effect) (x : ShellM α) : Prop :=
  ∀ workspace, EffectAt effect workspace x

/-! ## One step after the other -/

/-- The outcome of two steps: an error of the first ends the computation. -/
theorem run_bind (x : ShellM α) (f : α → ShellM β) (surroundings : Surroundings)
    (workspace : Workspace) :
    ((x >>= f).run surroundings).run workspace
      = match (x.run surroundings).run workspace with
        | (.ok a, between) => ((f a).run surroundings).run between
        | (.error error, between) => (.error error, between) := by
  show ExceptT.bindCont (fun a => f a surroundings) (x surroundings workspace).1
    (x surroundings workspace).2 = match x surroundings workspace with
      | (.ok a, between) => f a surroundings between
      | (.error error, between) => (.error error, between)
  generalize x surroundings workspace = outcome
  obtain ⟨result, between⟩ := outcome
  cases result <;> rfl

/-- A step may depend on the workspace in which it begins. -/
theorem run_get_bind (f : Workspace → ShellM α) (surroundings : Surroundings)
    (workspace : Workspace) :
    (((get : ShellM Workspace) >>= f).run surroundings).run workspace
      = ((f workspace).run surroundings).run workspace := rfl

/-- Files that answer leave the workspace as it is. -/
theorem run_askFiles_of_ok {ask : FileSystem → Except FileError α} {answer : α}
    (h : ask workspace.files = .ok answer) (surroundings : Surroundings) :
    ((askFiles ask).run surroundings).run workspace = (.ok answer, workspace) := by
  rw [askFiles, run_get_bind, h]
  rfl

/-- Files that give an error end the computation with it. -/
theorem run_askFiles_of_error {ask : FileSystem → Except FileError α} {error : FileError}
    (h : ask workspace.files = .error error) (surroundings : Surroundings) :
    ((askFiles ask).run surroundings).run workspace = (.error (.file error), workspace) := by
  rw [askFiles, run_get_bind, h]
  rfl

/-- Files that do what they are to do replace those of the workspace. -/
theorem run_onFiles_of_ok {act : FileSystem → Except FileError α × FileSystem} {answer : α}
    (h : (act workspace.files).1 = .ok answer) (surroundings : Surroundings) :
    ((onFiles act).run surroundings).run workspace
      = (.ok answer, { workspace with files := (act workspace.files).2 }) := by
  rw [onFiles, run_get_bind]
  dsimp only
  rw [h]
  rfl

theorem effectAt_bind {x : ShellM α} {f : α → ShellM β} (hx : EffectAt effect workspace x)
    (hf : ∀ a, HasEffect effect (f a)) : EffectAt effect workspace (x >>= f) := by
  intro surroundings
  have hfirst := hx surroundings
  rw [run_bind]
  generalize (x.run surroundings).run workspace = outcome at hfirst ⊢
  obtain ⟨result, between⟩ := outcome
  cases result with
  | error error => exact hfirst
  | ok a => exact hfirst.trans (hf a between surroundings)

/-- A step that changes nothing leaves the next one in the same workspace. -/
theorem effectAt_bind_of_nothing {x : ShellM α} {f : α → ShellM β}
    (hx : EffectAt .nothing workspace x) (hf : ∀ a, EffectAt effect workspace (f a)) :
    EffectAt effect workspace (x >>= f) := by
  intro surroundings
  have hsame : ((x.run surroundings).run workspace).2 = workspace := hx surroundings
  rw [run_bind]
  generalize (x.run surroundings).run workspace = outcome at hsame ⊢
  obtain ⟨result, between⟩ := outcome
  obtain rfl : between = workspace := hsame
  cases result with
  | error error => exact effect.allows_refl between
  | ok a => exact hf a surroundings

theorem HasEffect.bind {x : ShellM α} {f : α → ShellM β} (hx : HasEffect effect x)
    (hf : ∀ a, HasEffect effect (f a)) : HasEffect effect (x >>= f) :=
  fun workspace => effectAt_bind (hx workspace) hf

theorem HasEffect.pure (a : α) : HasEffect effect (pure a : ShellM α) :=
  fun workspace _ => effect.allows_refl workspace

theorem HasEffect.throw (error : ShellError) : HasEffect effect (throw error : ShellM α) :=
  fun workspace _ => effect.allows_refl workspace

/-- What follows a look at the workspace knows the workspace. -/
theorem HasEffect.get {f : Workspace → ShellM α}
    (hf : ∀ workspace, EffectAt effect workspace (f workspace)) :
    HasEffect effect (get >>= f) := fun workspace surroundings => hf workspace surroundings

theorem HasEffect.read {f : Surroundings → ShellM α}
    (hf : ∀ surroundings, HasEffect effect (f surroundings)) :
    HasEffect effect (read >>= f) :=
  fun workspace surroundings => hf surroundings workspace surroundings

theorem effectAt_set {after : Workspace} (h : effect.Allows workspace after) :
    EffectAt effect workspace (set after) := fun _ => h

theorem HasEffect.modify {f : Workspace → Workspace}
    (hf : ∀ workspace, effect.Allows workspace (f workspace)) :
    HasEffect effect (modify f : ShellM PUnit) := fun workspace _ => hf workspace

/-! ## Lists of steps -/

theorem HasEffect.mapM {f : α → ShellM β} (hf : ∀ a, HasEffect effect (f a)) (as : List α) :
    HasEffect effect (as.mapM f) := by
  induction as with
  | nil => exact .pure []
  | cons a as ih =>
      rw [List.mapM_cons]
      exact (hf a).bind fun b => ih.bind fun bs => .pure (b :: bs)

theorem HasEffect.forM {f : α → ShellM PUnit} (hf : ∀ a, HasEffect effect (f a)) (as : List α) :
    HasEffect effect (as.forM f) := by
  induction as with
  | nil => exact .pure _
  | cons a as ih =>
      exact (hf a).bind fun _ => ih

/-! ## The steps of commands -/

theorem HasEffect.refuse (error : CommandError) :
    HasEffect effect (ShellM.refuse error : ShellM α) := .throw _

theorem HasEffect.refuseUsage (description : Description) :
    HasEffect effect (ShellM.refuseUsage description : ShellM α) := .throw _

theorem HasEffect.orUsage (description : Description) (value : Option α) :
    HasEffect effect (ShellM.orUsage description value) := by
  cases value with
  | none => exact .throw _
  | some value => exact .pure value

/-- Asking the files changes nothing. -/
theorem HasEffect.askFiles (ask : FileSystem → Except FileError α) :
    HasEffect effect (ShellM.askFiles ask) := by
  refine .get fun workspace => ?_
  cases ask workspace.files with
  | ok answer => exact HasEffect.pure answer workspace
  | error error => exact HasEffect.throw (.file error) workspace

theorem HasEffect.readInput (command : String) (file : Option String) :
    HasEffect effect (ShellM.readInput command file) := by
  cases file with
  | some path => exact (HasEffect.askFiles _).bind fun text => .pure _
  | none =>
      refine .read fun surroundings => ?_
      cases surroundings.input with
      | some lines => exact .pure lines
      | none => exact .refuse _

theorem HasEffect.readCount (command : String) (word : Option String) :
    HasEffect effect (ShellM.readCount command word) := by
  cases word with
  | none => exact .refuse _
  | some word =>
      unfold ShellM.readCount
      dsimp only
      split
      · exact .pure _
      · exact .refuse _

/-- **Letting the files do an operation** is an effect on the files. -/
theorem HasEffect.onFiles {act : FileSystem → Except FileError α × FileSystem}
    (hact : ∀ fs, ∃ operations, (act fs).2 = (fs.run operations).2) :
    HasEffect .files (ShellM.onFiles act) := by
  refine .get fun workspace => ?_
  obtain ⟨operations, hafter⟩ := hact workspace.files
  refine effectAt_bind (effectAt_set ⟨operations, by rw [hafter]⟩) fun _ => ?_
  cases (act workspace.files).1 with
  | ok answer => exact .pure answer
  | error error => exact .throw (.file error)

/-- **Letting a service of the desktop do something** is an effect on the desktop. -/
theorem HasEffect.onService {σ : Type} (capability : Capability) (read : Desktop → Option σ)
    (write : Desktop → σ → Desktop) (act : σ → Except DesktopError (α × σ)) :
    HasEffect .desktop (ShellM.onService capability read write act) := by
  refine .get fun workspace => ?_
  cases read workspace.desktop with
  | none => exact HasEffect.throw _ workspace
  | some state =>
      dsimp only
      cases act state with
      | error error => exact HasEffect.throw _ workspace
      | ok answer =>
          refine effectAt_bind (effectAt_set ?_) fun _ => .pure answer.1
          exact ⟨write workspace.desktop answer.2, rfl⟩

/-- A service that is only asked stays as it is. -/
theorem HasEffect.askService {σ : Type} (capability : Capability) {read : Desktop → Option σ}
    {write : Desktop → σ → Desktop}
    (hwrite : ∀ desktop state, read desktop = some state → write desktop state = desktop)
    {act : σ → Except DesktopError (α × σ)}
    (hact : ∀ state answer, act state = .ok answer → answer.2 = state) :
    HasEffect effect (ShellM.onService capability read write act) := by
  refine .get fun workspace => ?_
  cases hread : read workspace.desktop with
  | none => exact HasEffect.throw _ workspace
  | some state =>
      dsimp only
      cases hanswer : act state with
      | error error => exact HasEffect.throw _ workspace
      | ok answer =>
          have hsame : { workspace with desktop := write workspace.desktop answer.2 }
              = workspace := by
            rw [hact state answer hanswer, hwrite workspace.desktop state hread]
          refine effectAt_bind (effectAt_set ?_) fun _ => .pure answer.1
          rw [hsame]
          exact effect.allows_refl workspace

end ShellM

end PocketShell
