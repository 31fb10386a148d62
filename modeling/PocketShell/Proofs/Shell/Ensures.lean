import PocketShell.Proofs.Shell.Effect

set_option autoImplicit false

/-! # What a computation keeps and what it answers

A property of workspaces is kept by a computation if, begun in a workspace with the property, it
leaves one, also where it ends with an error. At the same time it may be known what an answer is
like. `ShellM.Ensures` says both, in given surroundings, and holds of a computation if it holds of
its steps. What a step needs to know of the workspace in which it begins, it is told by
`ShellM.EnsuresAt`.
-/

namespace PocketShell

namespace ShellM

variable {α β : Type} {I : Workspace → Prop} {surroundings : Surroundings} {workspace : Workspace}
  {P : α → Prop} {Q : β → Prop}

/-- Begun in the workspace, the computation leaves one with the property `I`, and an answer that
it gives has the property `P`. -/
def EnsuresAt (I : Workspace → Prop) (surroundings : Surroundings) (workspace : Workspace)
    (x : ShellM α) (P : α → Prop) : Prop :=
  match (x.run surroundings).run workspace with
  | (.ok a, after) => I after ∧ P a
  | (.error _, after) => I after

/-- **The computation keeps the property `I`, and its answers have the property `P`.** -/
def Ensures (I : Workspace → Prop) (surroundings : Surroundings) (x : ShellM α) (P : α → Prop) :
    Prop :=
  ∀ workspace, I workspace → EnsuresAt I surroundings workspace x P

theorem EnsuresAt.after {x : ShellM α} (h : EnsuresAt I surroundings workspace x P) :
    I ((x.run surroundings).run workspace).2 := by
  rw [EnsuresAt] at h
  generalize (x.run surroundings).run workspace = outcome at h ⊢
  obtain ⟨result, after⟩ := outcome
  cases result with
  | error error => exact h
  | ok a => exact h.1

theorem EnsuresAt.answer {x : ShellM α} (h : EnsuresAt I surroundings workspace x P) {a : α}
    (ha : ((x.run surroundings).run workspace).1 = .ok a) : P a := by
  rw [EnsuresAt] at h
  generalize (x.run surroundings).run workspace = outcome at h ha
  obtain ⟨result, after⟩ := outcome
  obtain rfl : result = .ok a := ha
  exact h.2

/-! ## One step after the other -/

theorem EnsuresAt.bind {x : ShellM α} {f : α → ShellM β}
    (hx : EnsuresAt I surroundings workspace x P)
    (hf : ∀ a, P a → Ensures I surroundings (f a) Q) :
    EnsuresAt I surroundings workspace (x >>= f) Q := by
  rw [EnsuresAt] at hx ⊢
  rw [run_bind]
  generalize (x.run surroundings).run workspace = outcome at hx ⊢
  obtain ⟨result, between⟩ := outcome
  cases result with
  | error error => exact hx
  | ok a => exact hf a hx.2 between hx.1

theorem Ensures.bind {x : ShellM α} {f : α → ShellM β} (hx : Ensures I surroundings x P)
    (hf : ∀ a, P a → Ensures I surroundings (f a) Q) : Ensures I surroundings (x >>= f) Q :=
  fun workspace h => (hx workspace h).bind hf

theorem Ensures.pure {a : α} (ha : P a) : Ensures I surroundings (pure a : ShellM α) P :=
  fun _ h => ⟨h, ha⟩

theorem Ensures.throw (error : ShellError) : Ensures I surroundings (throw error : ShellM α) P :=
  fun _ h => h

theorem Ensures.get {f : Workspace → ShellM α}
    (hf : ∀ workspace, I workspace → EnsuresAt I surroundings workspace (f workspace) P) :
    Ensures I surroundings (get >>= f) P := fun workspace h => hf workspace h

theorem Ensures.read {f : Surroundings → ShellM α}
    (hf : Ensures I surroundings (f surroundings) P) :
    Ensures I surroundings (read >>= f) P := fun workspace h => hf workspace h

theorem Ensures.set {after : Workspace} (h : I after) {P : PUnit → Prop} (hP : P ⟨⟩) :
    Ensures I surroundings (set after : ShellM PUnit) P := fun _ _ => ⟨h, hP⟩

theorem Ensures.modify {f : Workspace → Workspace} (hf : ∀ workspace, I workspace → I (f workspace))
    {P : PUnit → Prop} (hP : P ⟨⟩) : Ensures I surroundings (modify f : ShellM PUnit) P :=
  fun workspace h => ⟨hf workspace h, hP⟩

/-! ## Lists of steps -/

theorem Ensures.mapM {f : α → ShellM β} {as : List α}
    (hf : ∀ a ∈ as, Ensures I surroundings (f a) Q) :
    Ensures I surroundings (as.mapM f) fun bs => ∀ b ∈ bs, Q b := by
  induction as with
  | nil => exact .pure (List.forall_mem_nil _)
  | cons a as ih =>
      obtain ⟨ha, has⟩ := List.forall_mem_cons.mp hf
      rw [List.mapM_cons]
      exact ha.bind fun b hb => (ih has).bind fun bs hbs =>
        .pure (List.forall_mem_cons.mpr ⟨hb, hbs⟩)

theorem Ensures.forM {f : α → ShellM PUnit} {as : List α}
    (hf : ∀ a ∈ as, Ensures I surroundings (f a) fun _ => True) :
    Ensures I surroundings (as.forM f) fun _ => True := by
  induction as with
  | nil => exact .pure trivial
  | cons a as ih =>
      obtain ⟨ha, has⟩ := List.forall_mem_cons.mp hf
      exact ha.bind fun _ _ => ih has

/-! ## The steps of commands -/

theorem Ensures.refuse (error : CommandError) :
    Ensures I surroundings (ShellM.refuse error : ShellM α) P := .throw _

theorem Ensures.refuseUsage (description : Description) :
    Ensures I surroundings (ShellM.refuseUsage description : ShellM α) P := .throw _

theorem Ensures.orUsage {description : Description} {value : Option α}
    (h : ∀ a, value = some a → P a) :
    Ensures I surroundings (ShellM.orUsage description value) P := by
  cases value with
  | none => exact .throw _
  | some a => exact .pure (h a rfl)

/-- Files that are asked tell what is there. -/
theorem Ensures.askFiles {ask : FileSystem → Except FileError α}
    (h : ∀ workspace, I workspace → ∀ a, ask workspace.files = .ok a → P a) :
    Ensures I surroundings (ShellM.askFiles ask) P := by
  refine .get fun workspace hI => ?_
  cases hask : ask workspace.files with
  | ok a => exact ⟨hI, h workspace hI a hask⟩
  | error error => exact hI

/-- Files that do something have to keep the property, also if they fail. -/
theorem Ensures.onFiles {act : FileSystem → Except FileError α × FileSystem}
    (h : ∀ workspace, I workspace → I { workspace with files := (act workspace.files).2 })
    (hP : ∀ workspace, I workspace → ∀ a, (act workspace.files).1 = .ok a → P a) :
    Ensures I surroundings (ShellM.onFiles act) P := by
  refine .get fun workspace hI => ?_
  have hset : Ensures I surroundings
      (MonadStateOf.set { workspace with files := (act workspace.files).2 } : ShellM PUnit)
      fun _ => True := .set (h workspace hI) trivial
  refine (hset workspace hI).bind fun _ _ => ?_
  cases hresult : (act workspace.files).1 with
  | ok a => exact .pure (hP workspace hI a hresult)
  | error error => exact .throw _

/-- A service that does something has to keep the property. -/
theorem Ensures.onService {σ : Type} {capability : Capability} {read : Desktop → Option σ}
    {write : Desktop → σ → Desktop} {act : σ → Except DesktopError (α × σ)}
    (h : ∀ workspace, I workspace → ∀ state, read workspace.desktop = some state →
      ∀ a after, act state = .ok (a, after) →
        I { workspace with desktop := write workspace.desktop after } ∧ P a) :
    Ensures I surroundings (ShellM.onService capability read write act) P := by
  refine .get fun workspace hI => ?_
  cases hread : read workspace.desktop with
  | none => exact hI
  | some state =>
      dsimp only
      cases hact : act state with
      | error error => exact hI
      | ok answer => exact h workspace hI state hread answer.1 answer.2 hact

theorem Ensures.readInput {command : String} {file : Option String} {P : List String → Prop}
    (hinput : ∀ lines, surroundings.input = some lines → P lines)
    (hfile : ∀ content, P (Text.lines content)) :
    Ensures I surroundings (ShellM.readInput command file) P := by
  cases file with
  | some path =>
      refine .bind (.askFiles (P := fun _ => True) fun _ _ _ _ => trivial) fun content _ => ?_
      exact .pure (hfile content)
  | none =>
      refine .read ?_
      cases h : surroundings.input with
      | some lines => exact .pure (hinput lines h)
      | none => exact .refuse _

theorem Ensures.readCount (command : String) (word : Option String) :
    Ensures I surroundings (ShellM.readCount command word) fun _ => True := by
  cases word with
  | none => exact .refuse _
  | some word =>
      unfold ShellM.readCount
      dsimp only
      split
      · exact .pure trivial
      · exact .refuse _

/-- A computation keeps what its effect cannot change. -/
theorem HasEffect.ensures_of {effect : Effect} {x : ShellM α} (h : HasEffect effect x)
    (hkeeps : ∀ {before after : Workspace}, effect.Allows before after → I before → I after) :
    Ensures I surroundings x fun _ => True := by
  intro workspace hI
  have hallows : effect.Allows workspace ((x.run surroundings).run workspace).2 :=
    h workspace surroundings
  rw [EnsuresAt]
  generalize (x.run surroundings).run workspace = outcome at hallows
  obtain ⟨result, after⟩ := outcome
  cases result with
  | error error => exact hkeeps hallows hI
  | ok a => exact ⟨hkeeps hallows hI, trivial⟩

/-- A computation that changes nothing keeps every property. -/
theorem HasEffect.ensures {x : ShellM α} (h : HasEffect .nothing x) :
    Ensures I surroundings x fun _ => True :=
  h.ensures_of fun hsame hI => by rwa [show _ = _ from hsame]

end ShellM

end PocketShell
