import PocketShell.Proofs.Path.Canonical

set_option autoImplicit false

/-! # The way to a path

The way to a path starts at the root and enters one folder after the other. It is made of the
path, its parent, the parent of that, and so on (`IsCanonical.mem_way_iff`), each of them once.
-/

namespace PocketShell.Path

/-- The paths entered from the folder along the names `dir`, going on by the given names. -/
def along (dir : List String) : List String → List String
  | [] => []
  | name :: rest => ofNames (dir ++ [name]) :: along (dir ++ [name]) rest

/-- The paths on the way from the root to a path, both ends included. -/
def way (path : String) : List String := root :: along [] (FileSystem.segmentsOf path)

theorem way_ofNames {names : List String} (hn : AllNames names) :
    way (ofNames names) = root :: along [] names := by
  rw [way, segmentsOf_ofNames hn]

theorem along_concat (dir rest : List String) (name : String) :
    along dir (rest ++ [name]) = along dir rest ++ [ofNames (dir ++ rest ++ [name])] := by
  induction rest generalizing dir with
  | nil => simp [along]
  | cons first rest ih => simp [along, ih]

theorem mem_along {dir rest : List String} {q : String} :
    q ∈ along dir rest ↔ ∃ more, more ≠ [] ∧ more <+: rest ∧ q = ofNames (dir ++ more) := by
  induction rest generalizing dir with
  | nil => simp [along]
  | cons name rest ih =>
      rw [along, List.mem_cons, ih]
      constructor
      · rintro (rfl | ⟨more, -, hp, rfl⟩)
        · exact ⟨[name], by simp, by simp, rfl⟩
        · exact ⟨name :: more, by simp, by simpa using hp, by simp⟩
      · rintro ⟨more, hne, hp, rfl⟩
        obtain ⟨first, more, rfl⟩ := List.exists_cons_of_ne_nil hne
        obtain ⟨rfl, hmp⟩ := List.cons_prefix_cons.mp hp
        by_cases hmore : more = []
        · subst hmore
          exact .inl rfl
        · exact .inr ⟨more, hmore, hmp, by simp⟩

/-- The way to a path is made of the paths of which it is a continuation. -/
theorem mem_way_ofNames {names : List String} (hn : AllNames names) {q : String} :
    q ∈ way (ofNames names) ↔ ∃ above, above <+: names ∧ q = ofNames above := by
  rw [way_ofNames hn, List.mem_cons, mem_along]
  constructor
  · rintro (rfl | ⟨above, -, hp, rfl⟩)
    · exact ⟨[], List.nil_prefix, rfl⟩
    · exact ⟨above, hp, rfl⟩
  · rintro ⟨above, hp, rfl⟩
    by_cases hne : above = []
    · subst hne
      exact .inl rfl
    · exact .inr ⟨above, hne, hp, rfl⟩

theorem parent_ofNames_dropLast {names : List String} (hn : AllNames names) :
    parent (ofNames names) = ofNames names.dropLast := by
  rcases List.eq_nil_or_concat names with rfl | ⟨above, name, rfl⟩
  · rfl
  · rw [List.concat_eq_append] at hn ⊢
    obtain ⟨ha, hname⟩ := allNames_concat.mp hn
    rw [parent_ofNames ha hname, List.dropLast_concat]

theorem AllNames.of_prefix {above names : List String} (hn : AllNames names)
    (hp : above <+: names) : AllNames above := fun name h => hn name (hp.subset h)

theorem iterate_parent_ofNames {names : List String} (hn : AllNames names) (n : Nat) :
    parent^[n] (ofNames names) = ofNames (names.take (names.length - n)) := by
  induction n generalizing names with
  | zero => simp
  | succ n ih =>
      have hdrop : AllNames names.dropLast := hn.of_prefix (List.dropLast_prefix names)
      rw [Function.iterate_succ_apply, parent_ofNames_dropLast hn, ih hdrop, List.length_dropLast,
        List.dropLast_eq_take, List.take_take, Nat.sub_sub, Nat.add_comm 1 n]
      congr 2
      omega

/-- **The way to a path is made of the path, its parent, the parent of that, and so on.** -/
theorem IsCanonical.mem_way_iff {path : String} (hp : IsCanonical path) {q : String} :
    q ∈ way path ↔ ∃ n, Path.parent^[n] path = q := by
  obtain ⟨names, hn, rfl⟩ := hp
  rw [mem_way_ofNames hn]
  constructor
  · rintro ⟨above, hp, rfl⟩
    refine ⟨names.length - above.length, ?_⟩
    rw [iterate_parent_ofNames hn, Nat.sub_sub_self hp.length_le, ← List.prefix_iff_eq_take.mp hp]
  · rintro ⟨n, rfl⟩
    exact ⟨_, List.take_prefix _ _, iterate_parent_ofNames hn n⟩

/-- No path of the way is met twice. -/
theorem ofNames_not_mem_along {dir rest : List String} (hd : AllNames dir) (hr : AllNames rest) :
    ofNames dir ∉ along dir rest := by
  intro hmem
  obtain ⟨more, hne, hp, heq⟩ := mem_along.mp hmem
  rw [ofNames_inj hd (allNames_append.mpr ⟨hd, hr.of_prefix hp⟩)] at heq
  exact hne (List.self_eq_append_right.mp heq)

theorem nodup_along {dir rest : List String} (hd : AllNames dir) (hr : AllNames rest) :
    (along dir rest).Nodup := by
  induction rest generalizing dir with
  | nil => exact List.nodup_nil
  | cons name rest ih =>
      obtain ⟨hname, hr⟩ := allNames_cons.mp hr
      have hall := allNames_concat.mpr ⟨hd, hname⟩
      exact List.nodup_cons.mpr ⟨ofNames_not_mem_along hall hr, ih hall hr⟩

theorem IsCanonical.nodup_way {path : String} (hp : IsCanonical path) : (way path).Nodup := by
  obtain ⟨names, hn, rfl⟩ := hp
  rw [way_ofNames hn]
  exact List.nodup_cons.mpr ⟨ofNames_not_mem_along allNames_nil hn, nodup_along allNames_nil hn⟩

theorem IsCanonical.of_mem_way {path q : String} (hp : IsCanonical path) (hq : q ∈ way path) :
    IsCanonical q := by
  obtain ⟨names, hn, rfl⟩ := hp
  obtain ⟨above, hprefix, rfl⟩ := (mem_way_ofNames hn).mp hq
  exact isCanonical_ofNames (hn.of_prefix hprefix)

theorem length_along (dir rest : List String) : (along dir rest).length = rest.length := by
  induction rest generalizing dir with
  | nil => rfl
  | cons name rest ih => rw [along, List.length_cons, ih, List.length_cons]

theorem length_way_ofNames {names : List String} (hn : AllNames names) :
    (way (ofNames names)).length = names.length + 1 := by
  rw [way_ofNames hn, List.length_cons, length_along]

/-! ## What is below a folder -/

/-- **A path is below another** when it differs from it and going to the parent, again and again,
leads there. -/
def IsBelow (dir path : String) : Prop := path ≠ dir ∧ ∃ n, parent^[n] path = dir

/-- Below a folder are the paths that go on with more names. -/
theorem isBelow_ofNames {names q : List String} (hn : AllNames names) (hq : AllNames q) :
    IsBelow (ofNames names) (ofNames q) ↔ ∃ more, more ≠ [] ∧ q = names ++ more := by
  rw [IsBelow, ← (isCanonical_ofNames hq).mem_way_iff, mem_way_ofNames hq, ne_eq,
    ofNames_inj hq hn]
  constructor
  · rintro ⟨hne, above, ⟨more, rfl⟩, heq⟩
    obtain rfl := (ofNames_inj hn (allNames_append.mp hq).1).mp heq
    exact ⟨more, by rintro rfl; simp at hne, rfl⟩
  · rintro ⟨more, hmore, rfl⟩
    exact ⟨by simpa using hmore, names, List.prefix_append names more, rfl⟩

/-- A path other than the root is below its parent. -/
theorem isBelow_parent {path : String} (hp : IsCanonical path) (hne : path ≠ root) :
    IsBelow (parent path) path := by
  obtain ⟨names, hn, rfl⟩ := hp
  rcases List.eq_nil_or_concat names with rfl | ⟨above, name, rfl⟩
  · exact absurd rfl hne
  · rw [List.concat_eq_append] at hn ⊢
    obtain ⟨ha, hname⟩ := allNames_concat.mp hn
    rw [parent_ofNames ha hname, isBelow_ofNames ha hn]
    exact ⟨[name], by simp, rfl⟩

/-! ## The characters of paths -/

theorem subset_of_mem_split {mark : Char} {cs piece : List Char}
    (h : piece ∈ Text.split mark cs) : piece ⊆ cs := by
  induction cs generalizing piece with
  | nil =>
      rw [Text.split, List.mem_singleton] at h
      rw [h]
      exact List.Subset.refl _
  | cons c cs ih =>
      rw [Text.split] at h
      split_ifs at h with hc
      · rcases List.mem_cons.mp h with rfl | h
        · exact List.nil_subset _
        · exact List.Subset.trans (ih h) (List.subset_cons_self c cs)
      · cases hs : Text.split mark cs with
        | nil => exact absurd hs (split_ne_nil mark cs)
        | cons first more =>
            rw [hs] at h ih
            rcases List.mem_cons.mp h with rfl | h
            · exact List.cons_subset_cons c (ih List.mem_cons_self)
            · exact List.Subset.trans (ih (List.mem_cons_of_mem _ h)) (List.subset_cons_self c cs)

/-- The segments entered are pieces of the text. -/
theorem segments_subset {cs seg : List Char} (h : seg ∈ segments cs) : seg ⊆ cs := by
  have key : ∀ (pieces entered : List (List Char)),
      seg ∈ pieces.foldl enter entered → seg ∈ entered ∨ seg ∈ pieces := by
    intro pieces
    induction pieces with
    | nil => exact fun entered h => .inl h
    | cons piece pieces ih =>
        intro entered h
        rcases ih (enter entered piece) h with h | h
        · rw [enter] at h
          split_ifs at h
          · exact .inl h
          · exact .inl (List.mem_of_mem_tail h)
          · rcases List.mem_cons.mp h with rfl | h
            · exact .inr List.mem_cons_self
            · exact .inl h
        · exact .inr (List.mem_cons_of_mem _ h)
  rw [segments, List.mem_reverse] at h
  rcases key _ [] h with h | h
  · cases h
  · exact subset_of_mem_split h

theorem toList_ofSegments_subset {segs : List (List Char)} {cs : List Char}
    (h : ∀ seg ∈ segs, seg ⊆ cs) : (ofSegments segs).toList ⊆ '/' :: cs := by
  cases segs with
  | nil => exact fun c hc => List.mem_cons.mpr (.inl (List.mem_singleton.mp hc))
  | cons first rest =>
      show (String.ofList ((first :: rest).flatMap ('/' :: ·))).toList ⊆ _
      rw [String.toList_ofList]
      intro c hc
      obtain ⟨seg, hseg, hc⟩ := List.mem_flatMap.mp hc
      rcases List.mem_cons.mp hc with rfl | hc
      · exact List.mem_cons_self
      · exact List.mem_cons_of_mem _ (h seg hseg hc)

/-- **A path that is typed has no other characters** than what is typed, the working directory and
slashes. -/
theorem toList_resolve_subset (cwd input : String) :
    (resolve cwd input).toList ⊆ '/' :: (cwd.toList ++ input.toList) := by
  have hsegments : ∀ cs : List Char, cs ⊆ '/' :: (cwd.toList ++ input.toList) →
      (ofSegments (segments cs)).toList ⊆ '/' :: (cwd.toList ++ input.toList) := by
    intro cs hcs
    have h : ∀ seg ∈ segments cs, seg ⊆ '/' :: (cwd.toList ++ input.toList) := fun seg hseg =>
      List.Subset.trans (segments_subset hseg) hcs
    have h := toList_ofSegments_subset h
    intro c hc
    rcases List.mem_cons.mp (h hc) with rfl | hc
    · exact List.mem_cons_self
    · exact hc
  have hinput : input.toList ⊆ '/' :: (cwd.toList ++ input.toList) :=
    List.Subset.trans (List.subset_append_right _ _) (List.subset_cons_self _ _)
  unfold resolve
  split_ifs
  · exact fun c hc => List.mem_cons.mpr (.inl (List.mem_singleton.mp hc))
  · split
    · next rest heq =>
        refine hsegments rest (List.Subset.trans ?_ hinput)
        rw [heq]
        exact List.Subset.trans (List.subset_cons_self _ _) (List.subset_cons_self _ _)
    · next rest heq =>
        rw [← heq]
        exact hsegments _ hinput
    · refine hsegments _ (List.append_subset.mpr ⟨?_, ?_⟩)
      · exact List.Subset.trans (List.subset_append_left _ _) (List.subset_cons_self _ _)
      · exact List.cons_subset.mpr ⟨List.mem_cons_self, hinput⟩

/-- The paths on the way have no other characters than the path, and slashes. -/
theorem toList_subset_of_mem_way {path q : String} (hp : IsCanonical path) (hq : q ∈ way path) :
    q.toList ⊆ '/' :: path.toList := by
  obtain ⟨names, hn, rfl⟩ := hp
  obtain ⟨above, ⟨below, rfl⟩, rfl⟩ := (mem_way_ofNames hn).mp hq
  refine toList_ofSegments_subset fun seg hseg => ?_
  obtain ⟨name, hname, rfl⟩ := List.mem_map.mp hseg
  rw [toList_ofNames (by rintro h; simp [List.append_eq_nil_iff.mp h] at hname)]
  intro c hc
  exact List.mem_flatMap.mpr ⟨name, List.mem_append_left _ hname, List.mem_cons_of_mem _ hc⟩

theorem toList_fileName_subset (path : String) : (fileName path).toList ⊆ path.toList := by
  rw [fileName, String.toList_ofList]
  intro c hc
  rw [List.mem_reverse] at hc
  exact List.mem_reverse.mp ((List.takeWhile_sublist _).subset hc)

end PocketShell.Path
