import PocketShell.Tree.Kind
import PocketShell.Proofs.Path.Canonical

set_option autoImplicit false

/-! # Outlines and their drawings

An outline is what a drawing of a tree can tell: names, kinds, and what is in which folder, siblings
in an order. Its lines (`Outline.lines`) are those of a drawing: each node on one line, after the
marks that connect it with its folder, and what is below a folder right after it, indented by one
group of marks more.

The lines determine the outline, whatever characters the names have (`lines_injective`). The marks
in front of a name are groups of four characters, and a group that connects is never one that
indents. So in the lines of siblings the first tells its name, its kind and whether it is the last,
and the lines below it are those that go on with its indentation: the line of the next sibling does
not, even if a name looks like a drawing.
-/

namespace PocketShell

open PocketShell.Path (isName)

/-- A text that can be the name of a node. -/
abbrev NodeName := { name : String // isName name = true }

/-- A tree of named files and folders, with the order of siblings. -/
inductive Outline where
  | file (name : NodeName)
  | folder (name : NodeName) (below : List Outline)

namespace Outline

/-- The name and the kind of the node at the top. -/
def label : Outline → String × NodeKind
  | file name => (name.val, .file)
  | folder name _ => (name.val, .folder)

/-- The name as it is drawn: that of a folder has a `/` after it. -/
def shown : Outline → String
  | file name => name.val
  | folder name _ => name.val ++ "/"

theorem exists_label (tree : Outline) : ∃ (name : NodeName) (kind : NodeKind),
    tree.label = (name.val, kind) := by
  cases tree with
  | file name => exact ⟨name, .file, rfl⟩
  | folder name _ => exact ⟨name, .folder, rfl⟩

theorem shown_eq (tree : Outline) :
    tree.shown = tree.label.1 ++ if tree.label.2 == .folder then "/" else "" := by
  cases tree with
  | file name => exact (String.append_empty).symm
  | folder name _ => rfl

/-- The outline of one node. Only a folder has something below it. -/
def top (name : NodeName) (kind : NodeKind) (below : List Outline) : Outline :=
  match kind with
  | .file => .file name
  | .folder => .folder name below

theorem label_top (name : NodeName) (kind : NodeKind) (below : List Outline) :
    (top name kind below).label = (name.val, kind) := by
  cases kind <;> rfl

theorem eq_of_top_eq_folder {name name' : NodeName} {kind : NodeKind} {below below' : List Outline}
    (h : top name kind below = .folder name' below') : name' = name ∧ below' = below := by
  cases kind with
  | file => cases h
  | folder =>
      cases h
      exact ⟨rfl, rfl⟩

/-- What connects a node with its folder. -/
def branch (isLast : Bool) : String := if isLast then "└── " else "├── "

/-- What indents the lines below a node. -/
def margin (isLast : Bool) : String := if isLast then "    " else "│   "

mutual

/-- The lines of siblings, each with the lines below it. -/
def lines (indent : String) : List Outline → List String
  | [] => []
  | tree :: rest =>
      (indent ++ branch rest.isEmpty ++ tree.shown) ::
        (linesBelow (indent ++ margin rest.isEmpty) tree ++ lines indent rest)

/-- The lines below a node. -/
def linesBelow (indent : String) : Outline → List String
  | file _ => []
  | folder _ below => lines indent below

end

theorem linesBelow_top (indent : String) (name : NodeName) (kind : NodeKind)
    (below : List Outline) : linesBelow indent (top name kind below)
      = if kind == .folder then lines indent below else [] := by
  cases kind <;> rfl

/-! ## Reading the marks -/

/-- **A connection tells whether the node is the last**, and where its name starts. -/
theorem branch_append_inj {isLast other : Bool} {s t : String}
    (h : branch isLast ++ s = branch other ++ t) : isLast = other ∧ s = t := by
  have hlist := congrArg String.toList h
  rw [String.toList_append, String.toList_append] at hlist
  cases isLast <;> cases other <;> simp_all [branch]

/-- **A connection is no indentation.** -/
theorem branch_append_ne (isLast other : Bool) (s t : String) :
    branch isLast ++ s ≠ margin other ++ t := by
  intro h
  have hlist := congrArg String.toList h
  rw [String.toList_append, String.toList_append] at hlist
  cases isLast <;> cases other <;> simp [branch, margin] at hlist

/-- **The `/` after a name tells the kind**, since no name holds one. -/
theorem label_eq_of_shown {tree other : Outline} (h : tree.shown = other.shown) :
    tree.label = other.label := by
  have hslash : ∀ (name : NodeName) (s : String), name.val ≠ s ++ "/" := by
    rintro ⟨name, hname⟩ s rfl
    exact Path.slash_not_mem_of_isName hname (by simp)
  cases tree with
  | file name =>
      cases other with
      | file name' =>
          have hname : name.val = name'.val := h
          rw [label, label, hname]
      | folder name' _ => exact absurd h (hslash name _)
  | folder name _ =>
      cases other with
      | file name' => exact absurd h.symm (hslash name' _)
      | folder name' _ =>
          have hname : name.val = name'.val := (String.append_left_inj "/").mp h
          rw [label, label, hname]

mutual

/-- All lines of siblings start with their indentation. -/
theorem exists_of_mem_lines (indent : String) : (forest : List Outline) → {line : String} →
    line ∈ lines indent forest → ∃ tail, line = indent ++ tail
  | [], _, h => absurd h List.not_mem_nil
  | tree :: rest, _, h => by
      rw [lines, List.mem_cons, List.mem_append] at h
      rcases h with rfl | h | h
      · exact ⟨_, String.append_assoc⟩
      · obtain ⟨tail, rfl⟩ := exists_of_mem_linesBelow _ tree h
        exact ⟨_, String.append_assoc⟩
      · exact exists_of_mem_lines indent rest h

theorem exists_of_mem_linesBelow (indent : String) : (tree : Outline) → {line : String} →
    line ∈ linesBelow indent tree → ∃ tail, line = indent ++ tail
  | file _, _, h => absurd h List.not_mem_nil
  | folder _ below, _, h => exists_of_mem_lines indent below h

end

/-- The first line of siblings does not start with a deeper indentation. -/
theorem ne_of_mem_head?_lines {indent : String} {forest : List Outline} {line : String}
    (h : (lines indent forest).head? = some line) (isLast : Bool) (tail : String) :
    line ≠ indent ++ margin isLast ++ tail := by
  cases forest with
  | nil => cases h
  | cons tree rest =>
      rw [lines, List.head?_cons] at h
      obtain rfl := Option.some.inj h
      rw [String.append_assoc, String.append_assoc, ne_eq, String.append_right_inj]
      exact branch_append_ne _ _ _ _

/-! ## Reading the lines -/

/-- Two lists are cut where a property first fails. -/
theorem append_inj_of_boundary {α : Type} {p : α → Prop} {as bs cs ds : List α}
    (h : as ++ bs = cs ++ ds) (has : ∀ a ∈ as, p a) (hcs : ∀ c ∈ cs, p c)
    (hbs : ∀ b, bs.head? = some b → ¬ p b) (hds : ∀ d, ds.head? = some d → ¬ p d) :
    as = cs ∧ bs = ds := by
  rcases List.append_eq_append_iff.mp h with ⟨more, rfl, rfl⟩ | ⟨more, rfl, rfl⟩
  · cases more with
    | nil => exact ⟨(List.append_nil as).symm, rfl⟩
    | cons a more => exact absurd (hcs a (by simp)) (hbs a rfl)
  · cases more with
    | nil => exact ⟨List.append_nil cs, rfl⟩
    | cons a more => exact absurd (has a (by simp)) (hds a rfl)

mutual

/-- **The lines of siblings determine them.** -/
theorem eq_of_lines (indent : String) : (forest other : List Outline) →
    lines indent forest = lines indent other → forest = other
  | [], [], _ => rfl
  | [], tree :: rest, h => by rw [lines, lines] at h; cases h
  | tree :: rest, [], h => by rw [lines, lines] at h; cases h
  | tree :: rest, tree' :: rest', h => by
      rw [lines, lines, List.cons.injEq, String.append_assoc, String.append_assoc,
        String.append_right_inj] at h
      obtain ⟨hfirst, hmore⟩ := h
      obtain ⟨hlast, hshown⟩ := branch_append_inj hfirst
      rw [hlast] at hmore
      -- what is below the first node ends where a line no longer has its indentation
      obtain ⟨hbelow, hrest⟩ := append_inj_of_boundary
        (p := fun line => ∃ tail, line = indent ++ margin rest'.isEmpty ++ tail) hmore
        (fun _ => exists_of_mem_linesBelow _ tree) (fun _ => exists_of_mem_linesBelow _ tree')
        (fun _ hline ⟨tail, heq⟩ => ne_of_mem_head?_lines hline _ tail heq)
        (fun _ hline ⟨tail, heq⟩ => ne_of_mem_head?_lines hline _ tail heq)
      rw [eq_of_linesBelow _ tree tree' (label_eq_of_shown hshown) hbelow,
        eq_of_lines indent rest rest' hrest]

/-- The lines below a node determine what is below it. -/
theorem eq_of_linesBelow (indent : String) : (tree other : Outline) →
    tree.label = other.label → linesBelow indent tree = linesBelow indent other → tree = other
  | file name, file name', hlabel, _ => by rw [Subtype.ext (congrArg Prod.fst hlabel)]
  | file _, folder _ _, hlabel, _ => by cases congrArg Prod.snd hlabel
  | folder _ _, file _, hlabel, _ => by cases congrArg Prod.snd hlabel
  | folder name below, folder name' below', hlabel, h => by
      have hname : name = name' := Subtype.ext (congrArg Prod.fst hlabel)
      rw [hname, eq_of_lines indent below below' h]

end

/-- **Drawing is injective.** -/
theorem lines_injective (indent : String) : Function.Injective (lines indent) :=
  eq_of_lines indent

end Outline

end PocketShell
