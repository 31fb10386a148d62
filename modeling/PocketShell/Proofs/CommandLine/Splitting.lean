import PocketShell.Proofs.CommandLine.Words
import PocketShell.Proofs.Outcome

set_option autoImplicit false

/-! # Dividing a line at its operators

What stands between two free operators is read as if it stood alone. So the cells of the parts
are those of the line with a blank in the place of each operator: for the pipes of a pipeline
(`cells_blankPipes`) and for the separators of a chain (`cells_blankOperators`).
-/

namespace PocketShell

namespace CommandLine

open PocketShell.Text (isBlank)

/-- A text with a blank in the place of each free `|`, read from the state `m`. -/
def blankPipes (m : Mode) (cs : List Char) : List Char :=
  (marked m cs).map fun cell => if cell.2 && cell.1 == '|' then ' ' else cell.1

/-- A text with a blank in the place of each free `|`, `;` and `&&`. -/
def blankOperators : List (Char × Bool) → List Char
  | [] => []
  | (';', true) :: rest => ' ' :: blankOperators rest
  | ('|', true) :: rest => ' ' :: blankOperators rest
  | ('&', true) :: ('&', true) :: rest => ' ' :: blankOperators rest
  | (c, _) :: rest => c :: blankOperators rest

/-! ## Blanks for pipes -/

theorem blankPipes_cons (m : Mode) (c : Char) (cs : List Char) :
    blankPipes m (c :: cs)
      = (if m.isFree c && c == '|' then ' ' else c) :: blankPipes (m.step c) cs := rfl

theorem blankPipes_append (m : Mode) (xs ys : List Char) :
    blankPipes m (xs ++ ys) = blankPipes m xs ++ blankPipes (m.after xs) ys := by
  rw [blankPipes, marked_append, List.map_append]
  rfl

theorem blankPipes_of_isBlank (m : Mode) {cs : List Char} (h : ∀ c ∈ cs, isBlank c = true) :
    blankPipes m cs = cs := by
  induction cs generalizing m with
  | nil => rfl
  | cons c cs ih =>
      rw [List.forall_mem_cons] at h
      have hc : (c == '|') = false := beq_eq_false_iff_ne.mpr (Text.ne_of_isBlank h.1 rfl)
      rw [blankPipes_cons, hc, Bool.and_false, ih _ h.2]
      rfl

theorem isFree_space {m : Mode} {c : Char} (h : m.isFree c = true) : m.isFree ' ' = true := by
  obtain ⟨rfl, -, -⟩ := Mode.isFree_iff.mp h
  rfl

/-- A blank in the place of a pipe leaves the state of the reader. -/
theorem after_blankPipes (m : Mode) (cs : List Char) : m.after (blankPipes m cs) = m.after cs := by
  induction cs generalizing m with
  | nil => rfl
  | cons c cs ih =>
      rw [blankPipes_cons, Mode.after_cons, Mode.after_cons]
      split_ifs with hpipe
      · have hf := (Bool.and_eq_true_iff.mp hpipe).1
        rw [Mode.step_of_isFree (isFree_space hf), Mode.step_of_isFree hf]
        exact ih {}
      · exact ih _

theorem splitPipes_cons (position : Nat) (c : Char) (free : Bool) (rest : List (Char × Bool)) :
    splitPipes position ((c, free) :: rest)
      = if free && c == '|' then
          ([], (position, (splitPipes (position + c.utf8Size) rest).1)
            :: (splitPipes (position + c.utf8Size) rest).2)
        else (c :: (splitPipes (position + c.utf8Size) rest).1,
          (splitPipes (position + c.utf8Size) rest).2) := rfl

/-- **The stages of a pipeline have the cells of the text**, with a gap for each pipe. -/
theorem cells_blankPipes (m : Mode) (position : Nat) (cs : List Char) :
    cells m (blankPipes m cs)
      = cells m (splitPipes position (marked m cs)).1
        ++ (splitPipes position (marked m cs)).2.flatMap fun stage => none :: cells {} stage.2 := by
  induction cs generalizing m position with
  | nil =>
      rw [marked, splitPipes, List.flatMap_nil, List.append_nil]
      rfl
  | cons c cs ih =>
      rw [blankPipes_cons, marked, splitPipes_cons]
      by_cases hpipe : (m.isFree c && c == '|') = true
      · have hf := (Bool.and_eq_true_iff.mp hpipe).1
        obtain ⟨rfl, -, -⟩ := Mode.isFree_iff.mp hf
        rw [if_pos hpipe, if_pos hpipe, cells_free_blank (isFree_space hf) rfl,
          Mode.step_of_isFree hf, ih {} (position + c.utf8Size)]
        rfl
      · rw [if_neg hpipe, if_neg hpipe, cells, ih (m.step c) (position + c.utf8Size), cells,
          List.append_assoc]

/-! ## The division of a chain -/

/-- Whether a marked text starts with a separator of a chain. -/
def startsSeparator : List (Char × Bool) → Bool
  | (';', true) :: _ => true
  | ('&', true) :: ('&', true) :: _ => true
  | _ => false

theorem splitChain_of_not {cell : Char × Bool} {rest : List (Char × Bool)}
    (h : startsSeparator (cell :: rest) = false) :
    splitChain (cell :: rest) = (cell.1 :: (splitChain rest).1, (splitChain rest).2) := by
  obtain ⟨c, free⟩ := cell
  conv_lhs => unfold splitChain
  split
  · next heq => cases heq
  · next heq =>
      cases heq
      cases h
  · next heq =>
      cases heq
      cases h
  · next heq =>
      cases heq
      rfl

theorem blankOperators_of_not {cell : Char × Bool} {rest : List (Char × Bool)}
    (h : startsSeparator (cell :: rest) = false) :
    blankOperators (cell :: rest)
      = (if cell.2 && cell.1 == '|' then ' ' else cell.1) :: blankOperators rest := by
  obtain ⟨c, free⟩ := cell
  conv_lhs => unfold blankOperators
  split
  · next heq => cases heq
  · next heq =>
      cases heq
      cases h
  · next heq =>
      cases heq
      rfl
  · next heq =>
      cases heq
      cases h
  · next hpipe _ heq =>
      cases heq
      rw [if_neg]
      rw [Bool.and_eq_true, beq_iff_eq]
      rintro ⟨rfl, rfl⟩
      exact hpipe rfl rfl

/-- **Reading a line** one separator or one other character at a time. -/
theorem marked_induction {motive : Mode → List Char → Prop} (nil : ∀ m, motive m [])
    (next : ∀ cs, motive {} cs → motive {} (';' :: cs))
    (both : ∀ cs, motive {} cs → motive {} ('&' :: '&' :: cs))
    (other : ∀ m c cs, startsSeparator (marked m (c :: cs)) = false →
      motive (m.step c) cs → motive m (c :: cs)) (m : Mode) (cs : List Char) : motive m cs := by
  induction hn : cs.length using Nat.strong_induction_on generalizing m cs with
  | _ n ih =>
      subst hn
      cases cs with
      | nil => exact nil m
      | cons c cs =>
          cases hsep : startsSeparator (marked m (c :: cs)) with
          | false => exact other m c cs hsep (ih cs.length (by simp) _ _ rfl)
          | true =>
              rw [marked] at hsep
              unfold startsSeparator at hsep
              split at hsep
              · -- a free `;`, and so nothing is open
                next heq =>
                  obtain ⟨hc, -⟩ := List.cons.inj heq
                  obtain ⟨rfl, hf⟩ := Prod.mk.inj hc
                  obtain ⟨rfl, -, -⟩ := Mode.isFree_iff.mp hf
                  exact next cs (ih cs.length (by simp) _ _ rfl)
              · -- a free `&` and another
                next heq =>
                  obtain ⟨hc, hrest⟩ := List.cons.inj heq
                  obtain ⟨rfl, hf⟩ := Prod.mk.inj hc
                  obtain ⟨rfl, -, -⟩ := Mode.isFree_iff.mp hf
                  cases cs with
                  | nil => cases hrest
                  | cons d cs =>
                      obtain ⟨rfl, -⟩ := Prod.mk.inj (List.cons.inj hrest).1
                      exact both cs (ih cs.length (by simp) _ _ rfl)
              · cases hsep

/-- Without a separator the whole text is one part. -/
theorem splitChain_of_nil (m : Mode) (cs : List Char)
    (h : (splitChain (marked m cs)).2 = []) : (splitChain (marked m cs)).1 = cs := by
  induction m, cs using marked_induction with
  | nil m => rfl
  | next cs ih => cases h
  | both cs ih => cases h
  | other m c cs hsep ih =>
      rw [marked] at hsep h ⊢
      rw [splitChain_of_not hsep] at h ⊢
      exact congrArg (c :: ·) (ih h)

/-- **The parts of a chain have the cells of the line**, with a gap for each operator. -/
theorem cells_blankOperators (m : Mode) (cs : List Char) :
    cells m (blankOperators (marked m cs))
      = cells m (blankPipes m (splitChain (marked m cs)).1)
        ++ (splitChain (marked m cs)).2.flatMap
            fun part => none :: cells {} (blankPipes {} part.2) := by
  induction m, cs using marked_induction with
  | nil m =>
      rw [marked, splitChain, List.flatMap_nil, List.append_nil]
      rfl
  | next cs ih =>
      show cells {} (' ' :: blankOperators (marked {} cs)) = _
      rw [cells_free_blank rfl rfl, ih]
      rfl
  | both cs ih =>
      show cells {} (' ' :: blankOperators (marked {} cs)) = _
      rw [cells_free_blank rfl rfl, ih]
      rfl
  | other m c cs hsep ih =>
      rw [marked] at hsep ⊢
      rw [splitChain_of_not hsep, blankOperators_of_not hsep]
      show cells m ((if m.isFree c && c == '|' then ' ' else c) :: _) = cells m (blankPipes m (c :: _)) ++ _
      rw [blankPipes_cons]
      -- a pipe is a gap on both sides, any other character the same cells
      split_ifs with hpipe
      · have hf := (Bool.and_eq_true_iff.mp hpipe).1
        rw [Mode.step_of_isFree hf] at ih ⊢
        rw [cells_free_blank (isFree_space hf) rfl, cells_free_blank (isFree_space hf) rfl, ih]
        rfl
      · rw [cells, ih, cells, List.append_assoc]

end CommandLine

end PocketShell
