import PocketShell.Proofs.Path.Canonical

set_option autoImplicit false

/-! # The normal form of a path

A text is gone along piece by piece, and what has been entered so far is a stack of segments
(`goOn`). Going along two texts one after the other is going along the first, a slash and the second
(`goOn_append`), so that a text can be cut at any of its slashes.

Going along a canonical path from the root enters its names and nothing else
(`goOn_ofNames`). So the normal form of a text leads to the same place as the text, and the
canonical paths are exactly the texts that are their own normal form
(`normalize_eq_self_iff`). On canonical paths a child and its folder and name are inverse.
-/

namespace PocketShell.Path

/-! ## Pieces -/

/-- Each piece written after a mark gives the text after a mark. -/
theorem flatMap_split (mark : Char) (cs : List Char) :
    (Text.split mark cs).flatMap (mark :: ·) = mark :: cs := by
  induction cs with
  | nil => rfl
  | cons c cs ih =>
      rw [Text.split]
      split_ifs with hc
      · rw [List.flatMap_cons, ih, hc]
        rfl
      · cases hcs : Text.split mark cs with
        | nil => exact absurd hcs (split_ne_nil mark cs)
        | cons piece pieces =>
            rw [hcs, List.flatMap_cons, List.cons_append, List.cons.injEq] at ih
            rw [List.flatMap_cons, List.cons_append, List.cons_append, ih.2]

/-! ## Going along a text -/

/-- The segments entered after going along a text, innermost first, from a place where some have
been entered. -/
def goOn (entered : List (List Char)) (cs : List Char) : List (List Char) :=
  (Text.split '/' cs).foldl enter entered

theorem segments_eq_goOn (cs : List Char) : segments cs = (goOn [] cs).reverse := rfl

@[simp] theorem enter_nil (entered : List (List Char)) : enter entered [] = entered :=
  if_pos (.inl rfl)

@[simp] theorem goOn_nil (entered : List (List Char)) : goOn entered [] = entered :=
  enter_nil entered

/-- **Going along two texts**, one after the other. -/
theorem goOn_append (entered : List (List Char)) (cs rest : List Char) :
    goOn entered (cs ++ '/' :: rest) = goOn (goOn entered cs) rest := by
  rw [goOn, split_append, List.foldl_append]
  rfl

/-- A slash at the start does not move. -/
@[simp] theorem goOn_slash (entered : List (List Char)) (cs : List Char) :
    goOn entered ('/' :: cs) = goOn entered cs := by
  rw [← List.nil_append ('/' :: cs), goOn_append, goOn_nil]

/-- A name enters the folder of that name. -/
theorem enter_of_isName {name : String} (h : isName name = true) (entered : List (List Char)) :
    enter entered name.toList = name.toList :: entered := by
  obtain ⟨hne, -, hdot, hdots⟩ := (isName_iff name).mp h
  rw [enter, if_neg (not_or.mpr ⟨hne, hdot⟩), if_neg hdots]

theorem foldl_enter_of_allNames {names : List String} (h : AllNames names)
    (entered : List (List Char)) :
    (names.map String.toList).foldl enter entered
      = (names.map String.toList).reverse ++ entered := by
  induction names generalizing entered with
  | nil => rfl
  | cons name names ih =>
      obtain ⟨hname, hnames⟩ := allNames_cons.mp h
      rw [List.map_cons, List.foldl_cons, enter_of_isName hname, ih hnames, List.reverse_cons,
        List.append_assoc, List.singleton_append]

/-- **Going along a canonical path** enters its names, from wherever it starts. -/
theorem goOn_ofNames {names : List String} (h : AllNames names) (entered : List (List Char)) :
    goOn entered (ofNames names).toList = (names.map String.toList).reverse ++ entered := by
  by_cases hne : names = []
  · subst hne
    exact goOn_slash entered []
  · rw [toList_ofNames hne, goOn, split_names h, List.foldl_cons, enter_nil,
      foldl_enter_of_allNames h]

/-! ## The normal form -/

/-- The segments of a canonical path are its names. -/
theorem segments_ofNames {names : List String} (h : AllNames names) :
    segments (ofNames names).toList = names.map String.toList := by
  rw [segments_eq_goOn, goOn_ofNames h, List.append_nil, List.reverse_reverse]

theorem isCanonical_normalize (text : String) : IsCanonical (normalize text) :=
  isCanonical_ofSegments text.toList

theorem IsCanonical.normalize_eq {path : String} (h : IsCanonical path) : normalize path = path := by
  obtain ⟨names, hn, rfl⟩ := h
  rw [normalize, segments_ofNames hn]
  rfl

/-- **The canonical paths are the texts that are their own normal form.** -/
theorem normalize_eq_self_iff {path : String} : normalize path = path ↔ IsCanonical path :=
  ⟨fun h => h ▸ isCanonical_normalize path, IsCanonical.normalize_eq⟩

/-- The segments of a place are the names on the way to it. -/
theorem exists_names_of_segments (cs : List Char) :
    ∃ names, AllNames names ∧ names.map String.toList = segments cs := by
  refine ⟨(segments cs).map String.ofList, fun name hname => ?_, ?_⟩
  · obtain ⟨seg, hseg, rfl⟩ := List.mem_map.mp hname
    exact segments_isName cs seg hseg
  · simp [Function.comp_def]

/-- **The normal form of a text leads where the text leads.** -/
theorem goOn_ofSegments (cs : List Char) :
    goOn [] (ofSegments (segments cs)).toList = goOn [] cs := by
  obtain ⟨names, hn, hsegments⟩ := exists_names_of_segments cs
  rw [← hsegments, ← ofNames, goOn_ofNames hn, hsegments, segments_eq_goOn, List.append_nil,
    List.reverse_reverse]

/-! ## Canonical paths by their characters -/

/-- A piece of a text that is cut at its slashes is a name if it is not empty, `.` or `..`. -/
theorem isName_of_mem_split {cs segment : List Char} (hmem : segment ∈ Text.split '/' cs)
    (h : segment ≠ [] ∧ segment ≠ ['.'] ∧ segment ≠ ['.', '.']) :
    isName (String.ofList segment) = true := by
  rw [isName_iff, String.toList_ofList]
  exact ⟨h.1, mark_not_mem_of_mem_split cs segment hmem, h.2⟩

/-- **A canonical path is `/`, or a `/` and segments with slashes between them**, none of which is
empty, `.` or `..`. -/
theorem isCanonical_iff_split {path : String} :
    IsCanonical path ↔ path = root ∨ ∃ rest, path.toList = '/' :: rest ∧
      ∀ segment ∈ Text.split '/' rest,
        segment ≠ [] ∧ segment ≠ ['.'] ∧ segment ≠ ['.', '.'] := by
  constructor
  · rintro ⟨names, hn, rfl⟩
    cases names with
    | nil => exact .inl rfl
    | cons name names =>
        -- the pieces after the first slash are the names
        have hpieces := split_names hn
        rw [List.flatMap_cons, List.cons_append, Text.split, if_pos rfl, List.cons.injEq] at hpieces
        refine .inr ⟨name.toList ++ names.flatMap fun name => '/' :: name.toList,
          toList_ofNames (List.cons_ne_nil name names), fun segment hsegment => ?_⟩
        rw [hpieces.2] at hsegment
        obtain ⟨named, hnamed, rfl⟩ := List.mem_map.mp hsegment
        obtain ⟨hne, -, hdots⟩ := (isName_iff named).mp (hn named hnamed)
        exact ⟨hne, hdots⟩
  · rintro (rfl | ⟨rest, hrest, hsegments⟩)
    · exact isCanonical_root
    · refine ⟨(Text.split '/' rest).map String.ofList, fun name hname => ?_, ?_⟩
      · obtain ⟨segment, hsegment, rfl⟩ := List.mem_map.mp hname
        exact isName_of_mem_split hsegment (hsegments segment hsegment)
      · have hne : (Text.split '/' rest).map String.ofList ≠ [] :=
          mt List.map_eq_nil_iff.mp (split_ne_nil '/' rest)
        rw [← String.toList_inj, hrest, toList_ofNames hne, List.flatMap_map, ← flatMap_split]
        simp only [String.toList_ofList]

/-! ## Folder and name -/

theorem IsCanonical.fileName_child {dir name : String} (hd : IsCanonical dir)
    (hn : isName name = true) : fileName (Path.child dir name) = name := by
  obtain ⟨names, hs, rfl⟩ := hd
  rw [child_ofNames hs, fileName_ofNames names hn]

/-- **A path is the child of its parent** with its own last name. -/
theorem IsCanonical.child_parent_fileName {path : String} (h : IsCanonical path)
    (hne : path ≠ root) :
    isName (fileName path) = true ∧ Path.child (Path.parent path) (fileName path) = path := by
  obtain ⟨dir, name, hd, hn, rfl⟩ := h.eq_root_or_child.resolve_left hne
  rw [hd.fileName_child hn, hd.parent_child hn]
  exact ⟨hn, rfl⟩

/-- **The normal form is a retraction onto the canonical paths**, which can be told by their
characters: it gives a canonical path for each text, and leaves those alone that are canonical.
Whatever is typed resolves to one, from any working directory. A canonical path other than the root
is taken apart into a canonical folder and a name, and put together again from them; a folder and a
name are found again in the path of the child. -/
theorem normalize_retraction :
    (∀ path, IsCanonical path ↔ path = root ∨ ∃ rest, path.toList = '/' :: rest ∧
      ∀ segment ∈ Text.split '/' rest,
        segment ≠ [] ∧ segment ≠ ['.'] ∧ segment ≠ ['.', '.']) ∧
    (∀ text, IsCanonical (normalize text)) ∧
    (∀ path, normalize path = path ↔ IsCanonical path) ∧
    (∀ cwd input, IsCanonical (resolve cwd input)) ∧
    (∀ path, IsCanonical path → path ≠ root →
      IsCanonical (parent path) ∧ isName (fileName path) = true ∧
        child (parent path) (fileName path) = path) ∧
    ∀ dir name, IsCanonical dir → isName name = true →
      IsCanonical (child dir name) ∧ parent (child dir name) = dir ∧
        fileName (child dir name) = name :=
  ⟨fun _ => isCanonical_iff_split, isCanonical_normalize, fun _ => normalize_eq_self_iff,
    isCanonical_resolve, fun _ h hne => ⟨h.parent, h.child_parent_fileName hne⟩,
    fun _ _ hd hn => ⟨hd.child hn, hd.parent_child hn, hd.fileName_child hn⟩⟩

/-- A text with dots and doubled slashes, and the parts of its normal form. -/
theorem normalize_retraction_dots :
    let path := normalize "x/.././/a//b c/../...//"
    path = "/a/..." ∧ IsCanonical path ∧ path ≠ root ∧ isName "n" = true ∧
      (IsCanonical (parent path) ∧ isName (fileName path) = true ∧
        child (parent path) (fileName path) = path) ∧
      IsCanonical (child path "n") ∧ parent (child path "n") = path ∧
        fileName (child path "n") = "n" := by
  intro path
  have hpath : path = "/a/..." := by decide
  have hne : path ≠ root := by decide
  have hname : isName "n" = true := by decide
  obtain ⟨-, hnormal, -, -, hparts, hchild⟩ := normalize_retraction
  have hcanonical : IsCanonical path := hnormal _
  exact ⟨hpath, hcanonical, hne, hname, hparts path hcanonical hne,
    hchild path "n" hcanonical hname⟩

end PocketShell.Path
