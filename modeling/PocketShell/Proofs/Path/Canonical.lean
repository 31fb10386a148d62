import PocketShell.FileSystem.Basic
import Mathlib.Tactic

set_option autoImplicit false

/-! # Canonical paths

A canonical path is determined by the names on the way to it (`ofNames`), and every operation
on canonical paths is one on lists of names: a child is reached by one more name at the end,
the parent by one name less, and the last name is the file name. The list of names is
recovered by `FileSystem.segmentsOf`, so two canonical paths are equal only if their names are.

Whatever is typed resolves to a canonical path (`isCanonical_resolve`).
-/

namespace PocketShell.Path

/-- Every text of the list can be the name of a node. -/
def AllNames (names : List String) : Prop := ∀ name ∈ names, isName name = true

/-- The path along the given names from the root. -/
def ofNames (names : List String) : String := ofSegments (names.map String.toList)

/-- **Canonical paths**: `/`, or a `/` before each of one or more segments, each of which is
not empty, holds no `/`, and is neither `.` nor `..`. -/
def IsCanonical (path : String) : Prop := ∃ names, AllNames names ∧ path = ofNames names

/-! ## Names -/

theorem isName_iff (name : String) :
    isName name = true ↔
      name.toList ≠ [] ∧ '/' ∉ name.toList ∧ name.toList ≠ ['.'] ∧ name.toList ≠ ['.', '.'] := by
  have key : ∀ (s : String) (cs : List Char), s ≠ String.ofList cs ↔ s.toList ≠ cs := by
    intro s cs
    rw [ne_eq, ne_eq, ← String.toList_inj, String.toList_ofList]
  have h0 : name ≠ "" ↔ name.toList ≠ [] := key name []
  have h1 : name ≠ "." ↔ name.toList ≠ ['.'] := key name ['.']
  have h2 : name ≠ ".." ↔ name.toList ≠ ['.', '.'] := key name ['.', '.']
  simp only [isName, Bool.and_eq_true, decide_eq_true_eq, Bool.not_eq_true',
    List.contains_eq_mem, decide_eq_false_iff_not, h0, h1, h2, and_assoc]

theorem toList_ne_nil_of_isName {name : String} (h : isName name = true) : name.toList ≠ [] :=
  ((isName_iff name).mp h).1

theorem slash_not_mem_of_isName {name : String} (h : isName name = true) : '/' ∉ name.toList :=
  ((isName_iff name).mp h).2.1

theorem allNames_nil : AllNames [] := by intro name h; cases h

theorem allNames_cons {name : String} {names : List String} :
    AllNames (name :: names) ↔ isName name = true ∧ AllNames names :=
  List.forall_mem_cons

theorem allNames_append {names more : List String} :
    AllNames (names ++ more) ↔ AllNames names ∧ AllNames more :=
  List.forall_mem_append

theorem allNames_concat {names : List String} {name : String} :
    AllNames (names ++ [name]) ↔ AllNames names ∧ isName name = true := by
  rw [allNames_append, allNames_cons]
  simp [allNames_nil]

/-! ## The characters of a path -/

@[simp] theorem ofNames_nil : ofNames [] = root := rfl

theorem toList_ofNames {names : List String} (h : names ≠ []) :
    (ofNames names).toList = names.flatMap fun name => '/' :: name.toList := by
  cases names with
  | nil => exact absurd rfl h
  | cons name names =>
      show (String.ofList _).toList = _
      rw [String.toList_ofList, List.flatMap_map]

theorem ofNames_ne_root {names : List String} (h : AllNames names) (hne : names ≠ []) :
    ofNames names ≠ root := by
  intro heq
  have hl := congrArg String.toList heq
  rw [toList_ofNames hne] at hl
  cases names with
  | nil => exact hne rfl
  | cons name names =>
      have hname := toList_ne_nil_of_isName (allNames_cons.mp h).1
      simp [root] at hl
      exact hname (by simp [hl.1])

/-- The path of a child has the name of the child at its end. -/
theorem child_ofNames {names : List String} (h : AllNames names) (name : String) :
    child (ofNames names) name = ofNames (names ++ [name]) := by
  rw [← String.toList_inj, toList_ofNames (by simp)]
  unfold child below
  by_cases hne : names = []
  · subst hne
    simp [root]
  · rw [if_neg (ofNames_ne_root h hne)]
    simp only [String.toList_append, toList_ofNames hne, List.flatMap_append,
      List.flatMap_singleton, List.append_assoc]
    rfl

/-- Reading the last segment of a text that ends with one. -/
theorem takeWhile_reverse_slash (before : List Char) {name : List Char} (h : '/' ∉ name) :
    ((before ++ '/' :: name).reverse.takeWhile (· ≠ '/')).reverse = name := by
  have hall : ∀ c ∈ name.reverse, (decide (c ≠ '/')) = true := by
    intro c hc
    have : c ∈ name := List.mem_reverse.mp hc
    simpa using fun hcs : c = '/' => h (hcs ▸ this)
  rw [List.reverse_append, List.reverse_cons, List.append_assoc,
    List.takeWhile_append_of_pos hall]
  simp

theorem dropWhile_reverse_slash (before : List Char) {name : List Char} (h : '/' ∉ name) :
    (before ++ '/' :: name).reverse.dropWhile (· ≠ '/') = '/' :: before.reverse := by
  have hall : ∀ c ∈ name.reverse, (decide (c ≠ '/')) = true := by
    intro c hc
    have : c ∈ name := List.mem_reverse.mp hc
    simpa using fun hcs : c = '/' => h (hcs ▸ this)
  rw [List.reverse_append, List.reverse_cons, List.append_assoc,
    List.dropWhile_append_of_pos hall]
  simp

theorem toList_ofNames_concat (names : List String) (name : String) :
    (ofNames (names ++ [name])).toList
      = (names.flatMap fun n => '/' :: n.toList) ++ '/' :: name.toList := by
  rw [toList_ofNames (by simp), List.flatMap_append, List.flatMap_singleton]

theorem fileName_ofNames (names : List String) {name : String} (h : isName name = true) :
    fileName (ofNames (names ++ [name])) = name := by
  rw [fileName, toList_ofNames_concat, takeWhile_reverse_slash _ (slash_not_mem_of_isName h),
    String.ofList_toList]

theorem parent_ofNames {names : List String} (hs : AllNames names) {name : String}
    (h : isName name = true) : parent (ofNames (names ++ [name])) = ofNames names := by
  rw [parent, toList_ofNames_concat, dropWhile_reverse_slash _ (slash_not_mem_of_isName h)]
  by_cases hne : names = []
  · subst hne
    rfl
  · have hr : (names.flatMap fun n => '/' :: n.toList).reverse ≠ [] := by
      cases names with
      | nil => exact absurd rfl hne
      | cons n names => simp
    split
    · next heq => simp at heq
    · next heq => exact absurd (by simpa using heq) hr
    · next before _ heq =>
        obtain ⟨-, rfl⟩ : '/' = _ ∧ _ = before := by simpa using heq
        rw [List.reverse_reverse, ← toList_ofNames hne, String.ofList_toList]

@[simp] theorem parent_root : parent root = root := rfl

@[simp] theorem fileName_root : fileName root = "" := rfl

/-! ## From a path back to its names -/

theorem split_ne_nil (mark : Char) (cs : List Char) : Text.split mark cs ≠ [] := by
  cases cs with
  | nil => simp [Text.split]
  | cons c cs =>
      rw [Text.split]
      split_ifs
      · simp
      · split <;> simp

theorem split_of_not_mem {mark : Char} {cs : List Char} (h : mark ∉ cs) :
    Text.split mark cs = [cs] := by
  induction cs with
  | nil => rfl
  | cons c cs ih =>
      rw [List.mem_cons, not_or] at h
      rw [Text.split, if_neg (Ne.symm h.1), ih h.2]

/-- A text that is cut at a mark has the pieces of both its parts. -/
theorem split_append (mark : Char) (cs rest : List Char) :
    Text.split mark (cs ++ mark :: rest) = Text.split mark cs ++ Text.split mark rest := by
  induction cs with
  | nil => simp [Text.split]
  | cons c cs ih =>
      rw [List.cons_append, Text.split, Text.split, ih]
      split_ifs with hc
      · rfl
      · cases hcs : Text.split mark cs with
        | nil => exact absurd hcs (split_ne_nil mark cs)
        | cons piece pieces => rfl

/-- The pieces of a path between its slashes: nothing before the first, then the names. -/
theorem split_names {names : List String} (h : AllNames names) :
    Text.split '/' (names.flatMap fun name => '/' :: name.toList)
      = [] :: names.map String.toList := by
  induction names with
  | nil => rfl
  | cons name names ih =>
      obtain ⟨hname, hnames⟩ := allNames_cons.mp h
      have ih := ih hnames
      have hslash := slash_not_mem_of_isName hname
      rw [List.flatMap_cons, List.cons_append, Text.split, if_pos rfl]
      cases names with
      | nil => simp [split_of_not_mem hslash]
      | cons next names =>
          rw [List.flatMap_cons, List.cons_append, Text.split, if_pos rfl] at ih
          rw [List.flatMap_cons, List.cons_append, split_append, split_of_not_mem hslash,
            List.singleton_append, List.map_cons, (List.cons.inj ih).2]

theorem segmentsOf_ofNames {names : List String} (h : AllNames names) :
    FileSystem.segmentsOf (ofNames names) = names := by
  by_cases hne : names = []
  · subst hne
    rfl
  · have hkeep : ∀ cs ∈ names.map String.toList, (decide (cs ≠ [])) = true := by
      intro cs hcs
      obtain ⟨name, hname, rfl⟩ := List.mem_map.mp hcs
      simpa using toList_ne_nil_of_isName (h name hname)
    rw [FileSystem.segmentsOf, toList_ofNames hne, split_names h,
      List.filter_cons_of_neg (by simp), List.filter_eq_self.mpr hkeep, List.map_map]
    simp

theorem ofNames_inj {names more : List String} (h : AllNames names) (h' : AllNames more) :
    ofNames names = ofNames more ↔ names = more := by
  constructor
  · intro heq
    rw [← segmentsOf_ofNames h, ← segmentsOf_ofNames h', heq]
  · rintro rfl
    rfl

/-! ## Canonical paths -/

theorem isCanonical_root : IsCanonical root := ⟨[], allNames_nil, rfl⟩

theorem isCanonical_ofNames {names : List String} (h : AllNames names) :
    IsCanonical (ofNames names) := ⟨names, h, rfl⟩

theorem IsCanonical.child {dir name : String} (hd : IsCanonical dir) (hn : isName name = true) :
    IsCanonical (child dir name) := by
  obtain ⟨names, hs, rfl⟩ := hd
  rw [child_ofNames hs]
  exact isCanonical_ofNames (allNames_concat.mpr ⟨hs, hn⟩)

theorem IsCanonical.parent_child {dir name : String} (hd : IsCanonical dir)
    (hn : isName name = true) : parent (Path.child dir name) = dir := by
  obtain ⟨names, hs, rfl⟩ := hd
  rw [child_ofNames hs, parent_ofNames hs hn]

/-- A canonical path other than the root is the path of a child of a canonical path. -/
theorem IsCanonical.eq_root_or_child {path : String} (h : IsCanonical path) :
    path = root ∨ ∃ dir name, IsCanonical dir ∧ isName name = true ∧ path = Path.child dir name := by
  obtain ⟨names, hs, rfl⟩ := h
  rcases List.eq_nil_or_concat names with rfl | ⟨names, name, rfl⟩
  · exact Or.inl rfl
  · rw [List.concat_eq_append] at hs ⊢
    obtain ⟨hs, hn⟩ := allNames_concat.mp hs
    exact Or.inr ⟨_, name, isCanonical_ofNames hs, hn, (child_ofNames hs name).symm⟩

theorem IsCanonical.parent {path : String} (h : IsCanonical path) : IsCanonical (parent path) := by
  rcases h.eq_root_or_child with rfl | ⟨dir, name, hd, hn, rfl⟩
  · exact isCanonical_root
  · rwa [hd.parent_child hn]

/-! ## What is typed resolves to a canonical path -/

/-- The pieces of a text hold no mark. -/
theorem mark_not_mem_of_mem_split {mark : Char} (cs : List Char) :
    ∀ piece ∈ Text.split mark cs, mark ∉ piece := by
  induction cs with
  | nil =>
      intro piece h
      rw [Text.split, List.mem_singleton] at h
      subst h
      exact List.not_mem_nil
  | cons c cs ih =>
      intro piece h
      rw [Text.split] at h
      split_ifs at h with hc
      · rcases List.mem_cons.mp h with rfl | h
        · exact List.not_mem_nil
        · exact ih piece h
      · cases hs : Text.split mark cs with
        | nil => exact absurd hs (split_ne_nil mark cs)
        | cons first more =>
            rw [hs] at h ih
            rcases List.mem_cons.mp h with rfl | h
            · rw [List.mem_cons, not_or]
              exact ⟨fun heq => hc heq.symm, ih first List.mem_cons_self⟩
            · exact ih piece (List.mem_cons_of_mem first h)

/-- One step down a path keeps the segments entered proper names. -/
theorem enter_isName {entered : List (List Char)} {segment : List Char} (hs : '/' ∉ segment)
    (h : ∀ seg ∈ entered, isName (String.ofList seg) = true) :
    ∀ seg ∈ enter entered segment, isName (String.ofList seg) = true := by
  intro seg hseg
  rw [enter] at hseg
  split_ifs at hseg with h1 h2
  · exact h seg hseg
  · exact h seg (List.mem_of_mem_tail hseg)
  · rcases List.mem_cons.mp hseg with rfl | hseg
    · rw [isName_iff, String.toList_ofList]
      exact ⟨fun he => h1 (Or.inl he), hs, fun he => h1 (Or.inr he), h2⟩
    · exact h seg hseg

theorem segments_isName (cs : List Char) :
    ∀ seg ∈ segments cs, isName (String.ofList seg) = true := by
  have key : ∀ (pieces entered : List (List Char)), (∀ piece ∈ pieces, '/' ∉ piece) →
      (∀ seg ∈ entered, isName (String.ofList seg) = true) →
      ∀ seg ∈ pieces.foldl enter entered, isName (String.ofList seg) = true := by
    intro pieces
    induction pieces with
    | nil => intro entered _ h; exact h
    | cons piece pieces ih =>
        intro entered hp h
        refine ih (enter entered piece) (fun q hq => hp q (List.mem_cons_of_mem piece hq)) ?_
        exact enter_isName (hp piece List.mem_cons_self) h
  intro seg h
  rw [segments, List.mem_reverse] at h
  exact key _ [] (mark_not_mem_of_mem_split cs) (by simp) seg h

theorem isCanonical_ofSegments (cs : List Char) : IsCanonical (ofSegments (segments cs)) := by
  refine ⟨(segments cs).map String.ofList, ?_, ?_⟩
  · intro name h
    obtain ⟨seg, hseg, rfl⟩ := List.mem_map.mp h
    exact segments_isName cs seg hseg
  · rw [ofNames, List.map_map]
    simp [Function.comp_def]

/-- **Whatever is typed resolves to a canonical path**, from any working directory. -/
theorem isCanonical_resolve (cwd input : String) : IsCanonical (resolve cwd input) := by
  unfold resolve
  split_ifs
  · exact isCanonical_root
  · split <;> exact isCanonical_ofSegments _

end PocketShell.Path
