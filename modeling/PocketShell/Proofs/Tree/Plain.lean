import PocketShell.Proofs.Path.Canonical

set_option autoImplicit false

/-! # Plain trees

A record read as a file tree in its own right, without stores, numbers or an index: a path is
walked one name at a time, into folders only, and always to the first child of that name.
Two changes are made in place: a node gets a new time of change (`stamp`), and a folder gets
a new last child (`append`).

What can be seen of a tree at a path is its node and the nodes of its children (`look`). Both
changes are described by what they do to this view, at every path.
-/

namespace PocketShell

/-- The node with the time of its last change set. -/
def Node.stamped (n : Node) (now : Nat) : Node := { n with modified := some now }

/-- The node under the last name of a path. -/
def Node.namedAt (n : Node) (path : String) : Node := { n with name := Path.fileName path }

/-- The name under which a node is shown does not change its kind. -/
@[simp] theorem Node.isFolder_namedAt (n : Node) (path : String) :
    (n.namedAt path).isFolder = n.isFolder := rfl

namespace TreeRecord

/-! ## Walking -/

/-- The children of a folder. What a record gives as children of a file is left aside. -/
def entries (t : TreeRecord) : List TreeRecord := if t.node.isFolder then t.children else []

/-- The first child with the given name. -/
def child? (t : TreeRecord) (name : String) : Option TreeRecord :=
  t.entries.find? fun child => child.node.name == name

/-- The subtree that the names lead to. -/
def walk : TreeRecord → List String → Option TreeRecord
  | t, [] => some t
  | t, name :: rest => (t.child? name).bind fun child => child.walk rest

@[simp] theorem walk_nil (t : TreeRecord) : t.walk [] = some t := rfl

theorem walk_cons (t : TreeRecord) (name : String) (rest : List String) :
    t.walk (name :: rest) = (t.child? name).bind fun child => child.walk rest := rfl

theorem walk_append (t : TreeRecord) (names more : List String) :
    t.walk (names ++ more) = (t.walk names).bind fun s => s.walk more := by
  induction names generalizing t with
  | nil => rfl
  | cons name names ih =>
      rw [List.cons_append, walk_cons, walk_cons, Option.bind_assoc]
      congr 1
      funext child
      exact ih child

theorem walk_concat (t : TreeRecord) (names : List String) (name : String) :
    t.walk (names ++ [name]) = (t.walk names).bind fun s => s.child? name := by
  rw [walk_append]
  congr 1
  funext s
  rw [walk_cons]
  cases s.child? name <;> rfl

theorem mem_entries_of_child? {t child : TreeRecord} {name : String}
    (h : t.child? name = some child) : child ∈ t.entries ∧ child.node.name = name := by
  rw [child?] at h
  exact ⟨List.mem_of_find?_eq_some h, by simpa using List.find?_some h⟩

theorem isFolder_of_child? {t child : TreeRecord} {name : String}
    (h : t.child? name = some child) : t.node.isFolder = true := by
  have hmem := (mem_entries_of_child? h).1
  rw [entries] at hmem
  split_ifs at hmem with hf
  · exact hf
  · cases hmem

/-! ## Dropping what cannot be a node -/

mutual

/-- The record without the children whose name is improper or that of an earlier child, at
every level. -/
def prune : TreeRecord → TreeRecord
  | .mk node children => .mk node (pruneAll [] children)

/-- The records with a proper name that is not taken, each pruned. -/
def pruneAll (taken : List String) : List TreeRecord → List TreeRecord
  | [] => []
  | .mk node children :: rest =>
      if Path.isName node.name && !taken.contains node.name then
        prune (.mk node children) :: pruneAll (node.name :: taken) rest
      else pruneAll taken rest

end

@[simp] theorem node_prune (t : TreeRecord) : t.prune.node = t.node := by
  obtain ⟨node, children⟩ := t
  rw [prune]
  rfl

theorem children_prune (t : TreeRecord) : t.prune.children = pruneAll [] t.children := by
  obtain ⟨node, children⟩ := t
  rw [prune]
  rfl

theorem entries_prune (t : TreeRecord) :
    t.prune.entries = if t.node.isFolder then pruneAll [] t.children else [] := by
  rw [entries, node_prune, children_prune]

theorem pruneAll_cons (taken : List String) (record : TreeRecord) (rest : List TreeRecord) :
    pruneAll taken (record :: rest)
      = if Path.isName record.node.name && !taken.contains record.node.name then
          record.prune :: pruneAll (record.node.name :: taken) rest
        else pruneAll taken rest := by
  obtain ⟨node, children⟩ := record
  rw [pruneAll]
  rfl

/-- A record that is kept has a proper name that was not taken, and is pruned itself. -/
theorem mem_pruneAll {taken : List String} {records : List TreeRecord} {t : TreeRecord}
    (h : t ∈ pruneAll taken records) :
    Path.isName t.node.name = true ∧ t.node.name ∉ taken ∧ ∃ r, t = prune r := by
  induction records generalizing taken with
  | nil =>
      rw [pruneAll] at h
      cases h
  | cons record rest ih =>
      rw [pruneAll_cons] at h
      split_ifs at h with hkeep
      · rw [Bool.and_eq_true, Bool.not_eq_true', List.contains_eq_mem,
          decide_eq_false_iff_not] at hkeep
        rcases List.mem_cons.mp h with rfl | h
        · rw [node_prune]
          exact ⟨hkeep.1, hkeep.2, _, rfl⟩
        · obtain ⟨hn, ht, hr⟩ := ih h
          exact ⟨hn, fun hmem => ht (List.mem_cons_of_mem _ hmem), hr⟩
      · exact ih h

/-- No two of the records that are kept have one name. -/
theorem nodup_pruneAll (taken : List String) (records : List TreeRecord) :
    ((pruneAll taken records).map fun child => child.node.name).Nodup := by
  induction records generalizing taken with
  | nil =>
      rw [pruneAll]
      exact List.nodup_nil
  | cons record rest ih =>
      rw [pruneAll_cons]
      split_ifs
      · rw [List.map_cons, node_prune]
        refine List.nodup_cons.mpr ⟨fun hmem => ?_, ih _⟩
        obtain ⟨child, hc, hname⟩ := List.mem_map.mp hmem
        exact (mem_pruneAll hc).2.1 (hname ▸ List.mem_cons_self)
      · exact ih taken

/-- Pruning does not change what a proper name that is not taken leads to. -/
theorem find?_pruneAll (taken : List String) (records : List TreeRecord) {name : String}
    (hname : Path.isName name = true) :
    (pruneAll taken records).find? (fun child => child.node.name == name)
      = if name ∈ taken then none
        else (records.find? fun child => child.node.name == name).map prune := by
  induction records generalizing taken with
  | nil =>
      rw [pruneAll]
      exact (ite_self none).symm
  | cons record rest ih =>
      rw [pruneAll_cons, List.find?_cons]
      by_cases heq : record.node.name = name
      · -- the first record of the name: it is kept unless the name is taken
        simp only [heq, hname, beq_self_eq_true, Bool.true_and, Bool.not_eq_true',
          List.contains_eq_mem, decide_eq_false_iff_not]
        by_cases htaken : name ∈ taken
        · rw [if_neg (not_not_intro htaken), ih, if_pos htaken, if_pos htaken]
        · rw [if_pos htaken, if_neg htaken, Option.map_some]
          refine List.find?_cons_of_pos ?_
          rw [node_prune, heq, beq_self_eq_true]
      · simp only [beq_eq_false_iff_ne.mpr heq]
        by_cases hkeep : (Path.isName record.node.name && !taken.contains record.node.name) = true
        · rw [if_pos hkeep, List.find?_cons_of_neg (by rwa [node_prune, beq_iff_eq]), ih]
          simp only [List.mem_cons, Ne.symm heq, false_or]
        · rw [if_neg hkeep, ih]

/-- **A name leads to the pruned child that it leads to without pruning.** -/
theorem child?_prune (t : TreeRecord) {name : String} (hname : Path.isName name = true) :
    t.prune.child? name = (t.child? name).map prune := by
  rw [child?, entries_prune, child?, entries]
  split_ifs
  · rw [find?_pruneAll [] _ hname, if_neg List.not_mem_nil]
  · rfl

/-- **Walks along proper names go the same way without pruning.** -/
theorem walk_prune (t : TreeRecord) {names : List String} (hn : Path.AllNames names) :
    t.prune.walk names = (t.walk names).map prune := by
  induction names generalizing t with
  | nil => rfl
  | cons name rest ih =>
      obtain ⟨hname, hrest⟩ := Path.allNames_cons.mp hn
      rw [walk_cons, walk_cons, child?_prune t hname]
      cases t.child? name with
      | none => rfl
      | some child => exact ih child hrest

/-- The proper names of the children of a folder in the order of the record, each where it comes
first. -/
def entryNames (t : TreeRecord) : List String :=
  ((t.entries.map fun child => child.node.name).filter Path.isName).eraseDups

theorem map_name_pruneAll (taken : List String) (records : List TreeRecord) :
    (pruneAll taken records).map (fun child => child.node.name)
      = ((records.map fun child => child.node.name).filter fun name =>
          Path.isName name && !taken.contains name).eraseDups := by
  induction records generalizing taken with
  | nil =>
      rw [pruneAll]
      rfl
  | cons record rest ih =>
      rw [pruneAll_cons, List.map_cons, List.filter_cons]
      split_ifs with hkeep
      · rw [List.map_cons, node_prune, ih, List.eraseDups_cons, List.filter_filter]
        -- a name is taken from now on if it was taken before, or is the one just kept
        refine congrArg (fun names => record.node.name :: List.eraseDups names)
          (List.filter_congr fun name _ => ?_)
        rw [List.contains_cons, Bool.not_or, Bool.and_left_comm]
      · exact ih taken

/-- The children that pruning keeps have the names that come first. -/
theorem map_name_entries_prune (t : TreeRecord) :
    (t.prune.entries.map fun child => child.node.name) = t.entryNames := by
  rw [entries_prune, entryNames, entries]
  split_ifs
  · rw [map_name_pruneAll]
    simp
  · rfl

/-- Every subtree of a pruned record is a pruned record. -/
theorem exists_prune_of_walk {t s : TreeRecord} {names : List String}
    (h : t.prune.walk names = some s) : ∃ r, s = prune r := by
  induction names generalizing t with
  | nil => exact ⟨t, (Option.some.inj h).symm⟩
  | cons name rest ih =>
      rw [walk_cons] at h
      obtain ⟨child, hc, hw⟩ := Option.bind_eq_some_iff.mp h
      have hmem := (mem_entries_of_child? hc).1
      rw [entries_prune] at hmem
      split_ifs at hmem
      · obtain ⟨-, -, r, rfl⟩ := mem_pruneAll hmem
        exact ih hw
      · cases hmem

/-- On a walk through a pruned record no two children have one name. -/
theorem nodup_entries_of_walk_prune {t s : TreeRecord} {names : List String}
    (h : t.prune.walk names = some s) : (s.entries.map fun child => child.node.name).Nodup := by
  obtain ⟨r, rfl⟩ := exists_prune_of_walk h
  rw [entries_prune]
  split_ifs
  · exact nodup_pruneAll [] r.children
  · exact List.nodup_nil

/-- On a walk through a pruned record every child is the first of its name. -/
theorem child?_of_walk_prune {t s child : TreeRecord} {names : List String}
    (h : t.prune.walk names = some s) (hc : child ∈ s.entries) :
    s.child? child.node.name = some child := by
  have hnodup := nodup_entries_of_walk_prune h
  cases hfind : s.child? child.node.name with
  | none =>
      rw [child?, List.find?_eq_none] at hfind
      exact absurd (beq_self_eq_true _) (hfind child hc)
  | some c =>
      obtain ⟨hmem, hname⟩ := mem_entries_of_child? hfind
      rw [List.inj_on_of_nodup_map hnodup hmem hc hname]

/-- Every name on a walk is proper. -/
def Proper (t : TreeRecord) : Prop :=
  ∀ names, (t.walk names).isSome = true → Path.AllNames names

theorem proper_prune (t : TreeRecord) : t.prune.Proper := by
  intro names
  induction names generalizing t with
  | nil => exact fun _ => Path.allNames_nil
  | cons name rest ih =>
      intro h
      rw [walk_cons] at h
      cases hc : t.prune.child? name with
      | none =>
          rw [hc] at h
          cases h
      | some child =>
          rw [hc, Option.bind_some] at h
          obtain ⟨hmem, rfl⟩ := mem_entries_of_child? hc
          rw [entries_prune] at hmem
          split_ifs at hmem
          · obtain ⟨hn, -, r, rfl⟩ := mem_pruneAll hmem
            exact Path.allNames_cons.mpr ⟨hn, ih r h⟩
          · cases hmem

/-! ## Changes in place -/

/-- The tree with the time of the last change of its root set. -/
def stamp (now : Nat) (t : TreeRecord) : TreeRecord :=
  mk (t.node.stamped now) t.children

/-- The tree with one more child of its root, after the others. -/
def append (new t : TreeRecord) : TreeRecord := mk t.node (t.children ++ [new])

/-- The tree with the subtree that the names lead to changed by `f`. -/
def amend (f : TreeRecord → TreeRecord) : List String → TreeRecord → TreeRecord
  | [], t => f t
  | name :: rest, t =>
      mk t.node (t.children.map fun child =>
        if child.node.name = name then amend f rest child else child)

/-- What can be seen at the end of a walk: a node, and the nodes of its children. -/
def look (t : TreeRecord) (names : List String) : Option (Node × List Node) :=
  (t.walk names).map fun s => (s.node, s.entries.map node)

theorem look_nil (t : TreeRecord) : t.look [] = some (t.node, t.entries.map node) := rfl

theorem look_cons (t : TreeRecord) (name : String) (rest : List String) :
    t.look (name :: rest) = (t.child? name).bind fun child => child.look rest := by
  rw [look, walk_cons, Option.map_bind]
  rfl

theorem isSome_look (t : TreeRecord) (names : List String) :
    (t.look names).isSome = (t.walk names).isSome := by
  rw [look, Option.isSome_map]

section Amend

variable {f : TreeRecord → TreeRecord}

/-- A change below the root leaves the node of the root, and changes one child. -/
theorem entries_amend (name : String) (rest : List String) (t : TreeRecord) :
    (amend f (name :: rest) t).entries
      = t.entries.map fun child => if child.node.name = name then amend f rest child else child := by
  rw [entries, entries]
  show (if t.node.isFolder then _ else []) = _
  split_ifs
  · rfl
  · rfl

/-- A change that keeps names leaves all names where they are. -/
theorem name_amend (hf : ∀ s, (f s).node.name = s.node.name) (names : List String)
    (t : TreeRecord) : (amend f names t).node.name = t.node.name := by
  cases names with
  | nil => exact hf t
  | cons name rest => rfl

theorem child?_amend (hf : ∀ s, (f s).node.name = s.node.name) (name : String)
    (rest : List String) (t : TreeRecord) (n : String) :
    (amend f (name :: rest) t).child? n
      = (t.child? n).map fun child => if n = name then amend f rest child else child := by
  have hname : ((fun child : TreeRecord => child.node.name == n) ∘ fun child =>
      if child.node.name = name then amend f rest child else child)
        = fun child => child.node.name == n := by
    funext child
    show ((if child.node.name = name then amend f rest child else child).node.name == n) = _
    split_ifs
    · rw [name_amend hf]
    · rfl
  rw [child?, entries_amend, List.find?_map, hname, ← child?]
  cases hc : t.child? n with
  | none => rfl
  | some child =>
      obtain ⟨-, rfl⟩ := mem_entries_of_child? hc
      rfl

end Amend

/-- **A new time of change is seen at its path**, at the node itself and among the children
of its parent, and nowhere else. -/
theorem look_amend_stamp (now : Nat) (names : List String) (t : TreeRecord) (q : List String) :
    (amend (stamp now) names t).look q
      = (t.look q).map fun seen =>
          (if q = names then seen.1.stamped now else seen.1,
            seen.2.map fun child =>
              if q ++ [child.name] = names then child.stamped now else child) := by
  have hf : ∀ s, (stamp now s).node.name = s.node.name := fun _ => rfl
  induction names generalizing t q with
  | nil =>
      cases q with
      | nil =>
          have hentries : (stamp now t).entries = t.entries := rfl
          show (stamp now t).look [] = _
          rw [look_nil, look_nil, hentries]
          simp
          rfl
      | cons n q =>
          have hc : (stamp now t).child? n = t.child? n := rfl
          show (stamp now t).look (n :: q) = _
          rw [look_cons, look_cons, hc]
          simp
  | cons name names ih =>
      cases q with
      | nil =>
          rw [look_nil, look_nil, entries_amend, List.map_map]
          simp only [Option.map_some, List.map_map, List.nil_append, if_neg (List.cons_ne_nil _ _).symm]
          refine congrArg some (Prod.ext rfl (List.map_congr_left fun child _ => ?_))
          show (if child.node.name = name then amend (stamp now) names child else child).node
            = if [child.node.name] = name :: names then child.node.stamped now else child.node
          by_cases hn : child.node.name = name
          · rw [if_pos hn, hn]
            cases names with
            | nil => rw [if_pos rfl]; rfl
            | cons next names => rw [if_neg (by simp)]; rfl
          · rw [if_neg hn, if_neg (by simp [hn])]
      | cons n q =>
          rw [look_cons, look_cons, child?_amend hf]
          cases hc : t.child? n with
          | none => rfl
          | some child =>
              simp only [Option.map_some, Option.bind_some, List.cons_append, List.cons.injEq]
              by_cases hn : n = name
              · simp only [hn, if_true, true_and]
                exact ih child q
              · simp [hn]

theorem entries_append {t : TreeRecord} (hf : t.node.isFolder = true) (new : TreeRecord) :
    (append new t).entries = t.entries ++ [new] := by
  rw [entries, entries, if_pos hf]
  exact if_pos hf

theorem child?_append {new t : TreeRecord} (hf : t.node.isFolder = true) (n : String) :
    (append new t).child? n = (t.child? n).or (if new.node.name = n then some new else none) := by
  rw [child?, entries_append hf, List.find?_append, child?]
  congr 1
  by_cases hn : new.node.name = n
  · simp [hn]
  · simp [hn]

/-- What is seen of a folder with a new last child. -/
theorem look_append {new t : TreeRecord} (hnew : new.entries = []) (hf : t.node.isFolder = true)
    (hfree : t.child? new.node.name = none) (q : List String) :
    (append new t).look q
      = if q = [new.node.name] then some (new.node, [])
        else (t.look q).map fun seen =>
          (seen.1, if q = [] then seen.2 ++ [new.node] else seen.2) := by
  cases q with
  | nil =>
      rw [if_neg (List.cons_ne_nil _ _).symm, look_nil, look_nil, entries_append hf,
        List.map_append]
      rfl
  | cons n q =>
      rw [look_cons, look_cons, child?_append hf]
      cases hc : t.child? n with
      | some child =>
          have hne : n ≠ new.node.name := by
            rintro rfl
            rw [hfree] at hc
            cases hc
          simp [hne]
      | none =>
          by_cases hn : new.node.name = n
          · subst hn
            -- the new child is found, and nothing below it
            cases q with
            | nil => simp [look_nil, hnew]
            | cons m q => simp [look_cons, child?, hnew]
          · simp [hn, Ne.symm hn]

/-- **A new last child is seen at its own path**, with nothing below it, and last among the
children of its parent; nothing else is seen to change. -/
theorem look_amend_append {new : TreeRecord} (hnew : new.entries = []) {names : List String}
    {t folder : TreeRecord} (hw : t.walk names = some folder) (hf : folder.node.isFolder = true)
    (hfree : folder.child? new.node.name = none) (q : List String) :
    (amend (append new) names t).look q
      = if q = names ++ [new.node.name] then some (new.node, [])
        else (t.look q).map fun seen =>
          (seen.1, if q = names then seen.2 ++ [new.node] else seen.2) := by
  have hname : ∀ s, (append new s).node.name = s.node.name := fun _ => rfl
  induction names generalizing t q with
  | nil =>
      obtain rfl : t = folder := Option.some.inj hw
      exact look_append hnew hf hfree q
  | cons name names ih =>
      cases q with
      | nil =>
          rw [if_neg (by simp), look_nil, look_nil, entries_amend, List.map_map]
          refine congrArg some (Prod.ext rfl ?_)
          show _ = t.entries.map node
          refine List.map_congr_left fun child _ => ?_
          show (if child.node.name = name then amend (append new) names child else child).node
            = child.node
          split_ifs
          · cases names <;> rfl
          · rfl
      | cons n q =>
          rw [look_cons, look_cons, child?_amend hname]
          cases hc : t.child? n with
          | none =>
              have hne : n ≠ name := by
                rintro rfl
                rw [walk_cons, hc] at hw
                cases hw
              simp [hne]
          | some child =>
              simp only [Option.map_some, Option.bind_some, List.cons_append, List.cons.injEq]
              by_cases hn : n = name
              · subst hn
                rw [walk_cons, hc, Option.bind_some] at hw
                simp only [if_true, true_and]
                exact ih hw q
              · simp [hn]

end TreeRecord

end PocketShell
