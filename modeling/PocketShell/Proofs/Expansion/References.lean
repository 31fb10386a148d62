import PocketShell.Proofs.Checked.Expansion

set_option autoImplicit false

/-! # Texts with references to variables

From left to right, a text is divided into pieces (`Divided`). At a dollar sign stands a body in
braces, which ends at the nearest closing brace; else the longest name; else the dollar sign by
itself. Everywhere else each character stands by itself. There is exactly one way to divide a text
so (`divided_iff`), and the values of variables have no part in it.

Replacing the references puts a value in the place of some pieces and keeps all others
(`expandVariables_substitutes`). As the text has been divided before, no value is looked through for
references.
-/

namespace PocketShell

/-! ## Names -/

/-- A character of a name: an ASCII letter, an ASCII digit or an underscore. -/
def IsNameLetter (c : Char) : Prop :=
  'A' ≤ c ∧ c ≤ 'Z' ∨ 'a' ≤ c ∧ c ≤ 'z' ∨ '0' ≤ c ∧ c ≤ '9' ∨ c = '_'

/-- The name of a variable: one or more such characters. -/
def IsName (name : List Char) : Prop := name ≠ [] ∧ ∀ c ∈ name, IsNameLetter c

theorem isNameChar_iff {c : Char} : isNameChar c = true ↔ IsNameLetter c := by
  have hupper : c.isUpper = true ↔ 'A' ≤ c ∧ c ≤ 'Z' := decide_eq_true_iff
  have hlower : c.isLower = true ↔ 'a' ≤ c ∧ c ≤ 'z' := by
    show (decide (c.val ≥ 97) && decide (c.val ≤ 122)) = true ↔ _
    rw [Bool.and_eq_true, decide_eq_true_iff, decide_eq_true_iff]
    rfl
  have hdigit : c.isDigit = true ↔ '0' ≤ c ∧ c ≤ '9' := by
    show (decide (c.val ≥ 48) && decide (c.val ≤ 57)) = true ↔ _
    rw [Bool.and_eq_true, decide_eq_true_iff, decide_eq_true_iff]
    rfl
  show (c.isUpper || c.isLower || c.isDigit || c == '_') = true ↔ _
  rw [Bool.or_eq_true, Bool.or_eq_true, Bool.or_eq_true, hupper, hlower, hdigit, beq_iff_eq,
    IsNameLetter, or_assoc, or_assoc]

theorem isVariableName_iff {name : List Char} : isVariableName name = true ↔ IsName name := by
  simp [isVariableName, IsName, isNameChar_iff]

/-! ## Dividing a text -/

/-- Whether a text begins with a body in braces. -/
def BeginsWithBody (cs : List Char) : Prop :=
  ∃ body rest, cs = '\x7b' :: (body ++ '\x7d' :: rest)

/-- Whether a text begins with a name. -/
def BeginsWithName (cs : List Char) : Prop := ∃ c rest, cs = c :: rest ∧ IsNameLetter c

/-- **What can be a piece right before the rest of a text.** A name begins with no brace, so a
reference by a name and one by a body never stand in the same place. -/
inductive Piece.StandsBefore : Piece → List Char → Prop where
  | braced {body rest : List Char} (h : '\x7d' ∉ body) : StandsBefore (.braced body) rest
  | plain {name rest : List Char} (h : IsName name) (hlongest : ¬ BeginsWithName rest) :
      StandsBefore (.plain name) rest
  | dollar {rest : List Char} (hbody : ¬ BeginsWithBody rest) (hname : ¬ BeginsWithName rest) :
      StandsBefore (.char '$') rest
  | char {c : Char} {rest : List Char} (h : c ≠ '$') : StandsBefore (.char c) rest

/-- **The text is divided into the pieces**, from left to right. -/
inductive Divided : List Char → List Piece → Prop where
  | nil : Divided [] []
  | cons {piece : Piece} {rest : List Char} {pieces : List Piece} (h : piece.StandsBefore rest)
      (hrest : Divided rest pieces) : Divided (piece.text ++ rest) (piece :: pieces)

/-- The pieces are the text. -/
theorem Divided.flatMap_text {cs : List Char} {ps : List Piece} (h : Divided cs ps) :
    ps.flatMap Piece.text = cs := by
  induction h with
  | nil => rfl
  | cons _ _ ih => rw [List.flatMap_cons, ih]

/-! ## The only way to divide it -/

theorem takeWhile_of_not_beginsWithName {rest : List Char} (h : ¬ BeginsWithName rest) :
    rest.takeWhile isNameChar = [] := by
  cases rest with
  | nil => rfl
  | cons c rest =>
      have hc : ¬ isNameChar c = true := fun hc => h ⟨c, rest, rfl, isNameChar_iff.mp hc⟩
      rw [List.takeWhile_cons, if_neg hc]

/-- The longest name at the start of a text. -/
theorem takeWhile_name_append {name rest : List Char} (h : IsName name)
    (hrest : ¬ BeginsWithName rest) : (name ++ rest).takeWhile isNameChar = name := by
  rw [List.takeWhile_append_of_pos fun c hc => isNameChar_iff.mpr (h.2 c hc),
    takeWhile_of_not_beginsWithName hrest, List.append_nil]

theorem cut?_of_not_beginsWithBody {rest : List Char} (h : ¬ BeginsWithBody rest) :
    ∀ inner, rest = '\x7b' :: inner → Text.cut? '\x7d' inner = none := by
  rintro inner rfl
  refine Text.cut?_of_notMem fun hmem => ?_
  obtain ⟨body, tail, rfl⟩ := List.append_of_mem hmem
  exact h ⟨body, tail, rfl⟩

/-- **A piece that can stand at the start of a text is its first piece.** -/
theorem pieces_append {piece : Piece} {rest : List Char} (h : piece.StandsBefore rest) :
    pieces (piece.text ++ rest) = piece :: pieces rest := by
  cases h with
  | braced h =>
      rw [Piece.text, List.cons_append, List.cons_append, List.append_assoc]
      exact pieces_braced h rest
  | @plain name _ h hlongest =>
      have hname := takeWhile_name_append h hlongest
      have hbrace : ∀ inner, name ++ rest = '\x7b' :: inner → Text.cut? '\x7d' inner = none := by
        intro inner hinner
        obtain ⟨c, tail, rfl⟩ := List.exists_cons_of_ne_nil h.1
        obtain rfl := (List.cons.inj hinner).1
        exact absurd (isNameChar_iff.mpr (h.2 _ List.mem_cons_self)) (by decide)
      have href := reference?_eq hbrace
      rw [hname, if_neg h.1] at href
      have hpieces := pieces_dollar_of_some href
      rwa [Piece.widthAfterDollar, List.drop_left] at hpieces
  | dollar hbody hname =>
      have href := reference?_eq (cut?_of_not_beginsWithBody hbody)
      rw [if_pos (takeWhile_of_not_beginsWithName hname)] at href
      exact pieces_dollar_of_none href
  | char h => exact pieces_cons_of_ne h rest

/-- A body ends at the nearest closing brace. -/
theorem BeginsWithBody.exists_body {cs : List Char} (h : BeginsWithBody cs) :
    ∃ body rest, '\x7d' ∉ body ∧ cs = '\x7b' :: (body ++ '\x7d' :: rest) := by
  obtain ⟨inner, after, rfl⟩ := h
  have hmem : '\x7d' ∈ inner ++ '\x7d' :: after := by simp
  obtain ⟨body, rest, hcut, hbody⟩ := List.eq_append_cons_of_mem hmem
  exact ⟨body, rest, hbody, by rw [hcut]⟩

/-- A name ends where no other character of a name follows. -/
theorem BeginsWithName.exists_name {cs : List Char} (h : BeginsWithName cs) :
    ∃ name rest, IsName name ∧ ¬ BeginsWithName rest ∧ cs = name ++ rest := by
  obtain ⟨c, after, rfl, hc⟩ := h
  refine ⟨(c :: after).takeWhile isNameChar, (c :: after).dropWhile isNameChar, ⟨?_, ?_⟩, ?_,
    List.takeWhile_append_dropWhile.symm⟩
  · rw [List.takeWhile_cons, if_pos (isNameChar_iff.mpr hc)]
    exact List.cons_ne_nil _ _
  · exact fun d hd => isNameChar_iff.mp (List.mem_takeWhile_imp hd)
  · rintro ⟨d, rest, hrest, hd⟩
    have hhead := List.head?_dropWhile_not isNameChar (c :: after)
    rw [hrest] at hhead
    simp [isNameChar_iff.mpr hd] at hhead

/-- **Every text begins with a piece.** -/
theorem exists_standsBefore {cs : List Char} (h : cs ≠ []) :
    ∃ (piece : Piece) (rest : List Char), cs = piece.text ++ rest ∧ piece.StandsBefore rest := by
  obtain ⟨c, after, rfl⟩ := List.exists_cons_of_ne_nil h
  by_cases hc : c = '$'
  · subst hc
    by_cases hbody : BeginsWithBody after
    · obtain ⟨body, rest, hnot, rfl⟩ := hbody.exists_body
      exact ⟨.braced body, rest, by simp [Piece.text], .braced hnot⟩
    · by_cases hname : BeginsWithName after
      · obtain ⟨name, rest, hvalid, hlongest, rfl⟩ := hname.exists_name
        exact ⟨.plain name, rest, rfl, .plain hvalid hlongest⟩
      · exact ⟨.char '$', after, rfl, .dollar hbody hname⟩
  · exact ⟨.char c, after, rfl, .char hc⟩

theorem Piece.text_ne_nil (piece : Piece) : piece.text ≠ [] := by
  cases piece with
  | char c => exact List.cons_ne_nil _ _
  | plain name => exact List.cons_ne_nil _ _
  | braced body => exact List.cons_ne_nil _ _

theorem divided_pieces (cs : List Char) : Divided cs (pieces cs) := by
  induction hn : cs.length using Nat.strong_induction_on generalizing cs with
  | _ n ih =>
      by_cases hnil : cs = []
      · subst hnil
        exact .nil
      · obtain ⟨piece, rest, rfl, hpiece⟩ := exists_standsBefore hnil
        have hlength : rest.length < n := by
          have hpos := List.length_pos_of_ne_nil piece.text_ne_nil
          rw [List.length_append] at hn
          omega
        rw [pieces_append hpiece]
        exact .cons hpiece (ih rest.length hlength rest rfl)

/-- **A text is divided in exactly one way.** -/
theorem divided_iff {cs : List Char} {ps : List Piece} : Divided cs ps ↔ ps = pieces cs := by
  constructor
  · intro h
    induction h with
    | nil => rfl
    | cons hpiece _ ih => rw [pieces_append hpiece, ih]
  · rintro rfl
    exact divided_pieces cs

/-! ## What becomes of a piece -/

/-- **The variable that a piece refers to.** A body in braces has to be a name. -/
inductive Piece.RefersTo : Piece → String → Prop where
  | plain (name : List Char) : RefersTo (.plain name) (String.ofList name)
  | braced {body : List Char} (h : IsName body) : RefersTo (.braced body) (String.ofList body)

/-- **What becomes of a piece**: the value of the variable that it refers to, or else the piece as
it is written. -/
inductive Piece.Becomes (lookup : String → Option String) : Piece → List Char → Prop where
  | value {piece : Piece} {name value : String} (hname : piece.RefersTo name)
      (h : lookup name = some value) : Becomes lookup piece value.toList
  | text {piece : Piece} (h : ∀ name, piece.RefersTo name → lookup name = none) :
      Becomes lookup piece piece.text

theorem Piece.RefersTo.eq_or_eq {piece : Piece} {name : String} (h : piece.RefersTo name) :
    piece = .plain name.toList ∨ piece = .braced name.toList := by
  cases h with
  | plain cs => exact .inl (by rw [String.toList_ofList])
  | braced _ => exact .inr (by rw [String.toList_ofList])

/-- A piece refers to one variable at most. -/
theorem Piece.RefersTo.unique {piece : Piece} {a b : String} (ha : piece.RefersTo a)
    (hb : piece.RefersTo b) : a = b := by
  cases ha with
  | plain _ => cases hb; rfl
  | braced _ => cases hb; rfl

variable {lookup : String → Option String}

theorem Piece.RefersTo.becomes {piece : Piece} {name : String} (h : piece.RefersTo name) :
    piece.Becomes lookup (((lookup name).map String.toList).getD piece.text) := by
  cases hvalue : lookup name with
  | none =>
      refine .text fun other hother => ?_
      rw [hother.unique h]
      exact hvalue
  | some value => exact .value h hvalue

theorem Piece.becomes_expand (piece : Piece) : piece.Becomes lookup (piece.expand lookup) := by
  cases piece with
  | char c => exact .text fun _ hname => nomatch hname
  | plain name => exact (RefersTo.plain name).becomes
  | braced body =>
      rw [Piece.expand]
      split_ifs with hbody
      · exact (RefersTo.braced (isVariableName_iff.mp hbody)).becomes
      · refine .text fun _ hname => ?_
        cases hname with
        | braced hvalid => exact absurd (isVariableName_iff.mpr hvalid) hbody

/-- Only the value of the variable that it refers to has a part in what becomes of a piece. -/
theorem Piece.Becomes.unique {other : String → Option String} {piece : Piece} {a b : List Char}
    (ha : piece.Becomes lookup a) (hb : piece.Becomes other b)
    (h : ∀ name, piece.RefersTo name → lookup name = other name) : a = b := by
  cases ha with
  | value hfirst hvalue =>
      rw [h _ hfirst] at hvalue
      cases hb with
      | value hsecond hother =>
          rw [hfirst.unique hsecond, hother] at hvalue
          rw [Option.some.inj hvalue]
      | text hnone =>
          rw [hnone _ hfirst] at hvalue
          cases hvalue
  | text hnone =>
      cases hb with
      | value hsecond hother =>
          rw [← h _ hsecond, hnone _ hsecond] at hother
          cases hother
      | text _ => rfl

/-! ## The result -/

theorem toList_expandVariables (lookup : String → Option String) (text : String) :
    (expandVariables lookup text).toList = (pieces text.toList).flatMap (Piece.expand lookup) := by
  rw [expandVariables, String.toList_ofList]

/-- **References are replaced once, from left to right.** Each text is divided in exactly one way,
which is the same for all variables. The result is what the pieces become, one after the other, so
nothing but the values of the variables that the text refers to has a part in it, and a text that
refers to no variable with a value stays as it is. The loop that goes from one dollar sign to the
next ends with this result, after no more rounds than the text has characters and one. -/
theorem expandVariables_substitutes (text : String) :
    ∃ ps, Divided text.toList ps ∧ (∀ others, Divided text.toList others → others = ps) ∧
      ∀ lookup,
        (∃ parts, List.Forall₂ (Piece.Becomes lookup) ps parts ∧
          (expandVariables lookup text).toList = parts.flatten) ∧
        (∀ other, (∀ piece ∈ ps, ∀ name, piece.RefersTo name → lookup name = other name) →
          expandVariables lookup text = expandVariables other text) ∧
        ((∀ piece ∈ ps, ∀ name, piece.RefersTo name → lookup name = none) →
          expandVariables lookup text = text) ∧
        ∀ rounds, text.toList.length < rounds →
          Checked.replaceRounds lookup rounds text.toList
            = some (expandVariables lookup text).toList := by
  refine ⟨pieces text.toList, divided_pieces _, fun others => divided_iff.mp, fun lookup =>
    ⟨?_, fun other hsame => ?_, fun hnone => ?_, fun rounds hrounds => ?_⟩⟩
  · refine ⟨(pieces text.toList).map (Piece.expand lookup), ?_, ?_⟩
    · rw [List.forall₂_map_right_iff, List.forall₂_same]
      exact fun piece _ => piece.becomes_expand
    · rw [toList_expandVariables, List.flatMap_def]
  · rw [← String.toList_inj, toList_expandVariables, toList_expandVariables]
    exact List.flatMap_congr fun piece hmem =>
      piece.becomes_expand.unique piece.becomes_expand (hsame piece hmem)
  · rw [← String.toList_inj, toList_expandVariables]
    calc (pieces text.toList).flatMap (Piece.expand lookup)
        = (pieces text.toList).flatMap Piece.text := List.flatMap_congr fun piece hmem =>
          piece.becomes_expand.unique (.text (hnone piece hmem)) fun _ _ => rfl
      _ = text.toList := (divided_pieces _).flatMap_text
  · rw [Checked.replaceRounds_eq hrounds, toList_expandVariables]
    rfl

/-- A value that looks like a reference, a body that is no name, a name that ends at a letter of two
bytes, a brace that nothing closes, and a dollar sign at the end. -/
theorem expandVariables_substitutes_mixed :
    let text := "$A$\x7bA\x7d-$\x7bA B\x7d$B_é $\x7bC$A$"
    let lookup (name : String) : Option String := if name = "A" then some "$B" else none
    let other (name : String) : Option String := if name = "B" then some "x" else lookup name
    expandVariables lookup text = "$B$B-$\x7bA B\x7d$B_é $\x7bC$B$" ∧
      expandVariables lookup text = expandVariables other text ∧
      expandVariables (fun _ => none) text = text ∧
      Checked.replaceRounds lookup 25 text.toList = some (expandVariables lookup text).toList := by
  intro text lookup other
  obtain ⟨ps, -, hunique, hresult⟩ := expandVariables_substitutes text
  obtain rfl : pieces text.toList = ps := hunique _ (divided_pieces _)
  refine ⟨by decide +kernel, (hresult lookup).2.1 other ?_, ?_, ?_⟩
  · -- the text does not refer to `B`, only a value does
    intro piece hmem name hname
    by_cases hB : name = "B"
    · subst hB
      rcases hname.eq_or_eq with rfl | rfl
      · exact absurd hmem (by decide)
      · exact absurd hmem (by decide)
    · exact (if_neg hB).symm
  · exact (hresult _).2.2.1 fun _ _ _ _ => rfl
  · exact (hresult lookup).2.2.2 25 (by decide)

end PocketShell
