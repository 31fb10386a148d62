import PocketShell.Proofs.Path.Normal

set_option autoImplicit false

/-! # Relative inputs

What is typed in a folder stands for one text that leads from the root to the place meant
(`fromRoot`): the input itself if it starts at the root, and the path of the folder, a slash and the
input otherwise. A relative input does not start at the root, so it may as well be written after a
slash behind the input of an earlier step. Since the normal form leads where its text leads, two
steps are one (`resolve_resolve`), also where `..` would leave the root.
-/

namespace PocketShell.Path

/-- **An input is relative** if it starts neither at the root nor with the `~` that stands for
it. -/
structure IsRelative (input : String) : Prop where
  not_slash : Text.startsWith input "/" = false
  ne_tilde : input ≠ "~"
  not_tilde_slash : Text.startsWith input "~/" = false

/-- The text that leads from the root to the place that an input names in a folder. -/
def fromRoot (cwd : String) (input : List Char) : List Char :=
  match input with
  | ['~'] => []
  | '~' :: '/' :: rest => '/' :: rest
  | '/' :: rest => '/' :: rest
  | relative => cwd.toList ++ '/' :: relative

/-- What is typed starts in the working directory if it does not start at the root. -/
theorem fromRoot_of_relative {cs : List Char} (htilde : cs ≠ ['~'])
    (hhome : ∀ rest, cs ≠ '~' :: '/' :: rest) (hslash : ∀ rest, cs ≠ '/' :: rest) (cwd : String) :
    fromRoot cwd cs = cwd.toList ++ '/' :: cs := by
  unfold fromRoot
  split
  · exact absurd rfl htilde
  · exact absurd rfl (hhome _)
  · exact absurd rfl (hslash _)
  · rfl

theorem IsRelative.fromRoot_eq {input : String} (h : IsRelative input) (cwd : String) :
    fromRoot cwd input.toList = cwd.toList ++ '/' :: input.toList := by
  refine fromRoot_of_relative (fun heq => h.ne_tilde (String.toList_inj.mp heq)) ?_ ?_ cwd
  · intro rest heq
    exact absurd h.not_tilde_slash (by simp [Text.startsWith, heq])
  · intro rest heq
    exact absurd h.not_slash (by simp [Text.startsWith, heq])

/-- **An input names the place that this text leads to.** -/
theorem resolve_eq (cwd input : String) :
    resolve cwd input = ofSegments (goOn [] (fromRoot cwd input.toList)).reverse := by
  rw [resolve]
  split_ifs with hinput
  · rw [hinput]
    rfl
  · split
    · next rest heq =>
        rw [heq, segments_eq_goOn, fromRoot, goOn_slash]
    · next rest heq =>
        rw [heq, segments_eq_goOn]
        rfl
    · next hhome hslash =>
        have htilde : input.toList ≠ ['~'] := fun heq => hinput (String.toList_inj.mp heq)
        rw [fromRoot_of_relative htilde hhome hslash, segments_eq_goOn]

/-- What is written after an input and a slash is written after its text and a slash. -/
theorem fromRoot_append {first : List Char} (hfirst : first ≠ []) (cwd : String)
    (rest : List Char) :
    fromRoot cwd (first ++ '/' :: rest) = fromRoot cwd first ++ '/' :: rest := by
  rw [fromRoot.eq_def cwd first]
  split
  · rfl
  · rfl
  · rfl
  · next htilde hhome hslash =>
      -- a slash after the input does not make it start at the root
      obtain ⟨c, more, rfl⟩ := List.exists_cons_of_ne_nil hfirst
      have hhome' : ∀ tail, c :: more ++ '/' :: rest ≠ '~' :: '/' :: tail := by
        intro tail heq
        obtain ⟨rfl, hmore⟩ := List.cons.inj heq
        cases more with
        | nil => exact htilde rfl
        | cons d more =>
            obtain ⟨rfl, -⟩ := List.cons.inj hmore
            exact hhome more rfl
      have hslash' : ∀ tail, c :: more ++ '/' :: rest ≠ '/' :: tail := by
        intro tail heq
        obtain ⟨rfl, -⟩ := List.cons.inj heq
        exact hslash more rfl
      rw [fromRoot_of_relative (by simp) hhome' hslash', List.append_assoc]
      rfl

/-- **Two steps are one.** What a relative input names in the folder that another input names is what
both name together, with a slash between them. -/
theorem resolve_resolve {first second : String} (hfirst : first ≠ "") (hsecond : IsRelative second)
    (cwd : String) :
    resolve (resolve cwd first) second = resolve cwd (first ++ "/" ++ second) := by
  have hne : first.toList ≠ [] := fun hnil => hfirst (String.toList_inj.mp hnil)
  have htogether : (first ++ "/" ++ second).toList = first.toList ++ '/' :: second.toList := by
    simp
  have hplace : goOn [] (resolve cwd first).toList = goOn [] (fromRoot cwd first.toList) := by
    rw [resolve_eq, ← segments_eq_goOn, goOn_ofSegments]
  calc resolve (resolve cwd first) second
      = ofSegments (goOn (goOn [] (resolve cwd first).toList) second.toList).reverse := by
        rw [resolve_eq _ second, hsecond.fromRoot_eq, goOn_append]
    _ = ofSegments (goOn (goOn [] (fromRoot cwd first.toList)) second.toList).reverse := by
        rw [hplace]
    _ = resolve cwd (first ++ "/" ++ second) := by
        rw [resolve_eq, htogether, fromRoot_append hne, goOn_append]

/-- Steps with dots and slashes from a folder that is not in normal form: the first leaves the root
and ends with a slash, and the second goes back. -/
theorem resolve_resolve_dots :
    "../..//a/./b/" ≠ "" ∧ IsRelative "..//~/./c/" ∧
      resolve (resolve "x/." "../..//a/./b/") "..//~/./c/" = "/a/~/c" ∧
      resolve (resolve "x/." "../..//a/./b/") "..//~/./c/"
        = resolve "x/." ("../..//a/./b/" ++ "/" ++ "..//~/./c/") := by
  have hne : "../..//a/./b/" ≠ "" := by decide
  have hrelative : IsRelative "..//~/./c/" := ⟨by decide, by decide, by decide⟩
  exact ⟨hne, hrelative, by decide, resolve_resolve hne hrelative "x/."⟩

end PocketShell.Path
