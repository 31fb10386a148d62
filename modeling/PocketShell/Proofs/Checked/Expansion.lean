import PocketShell.Expansion
import PocketShell.Proofs.Checked.CommandLine

set_option autoImplicit false

/-! # Expansions never read out of range

A reference to an entry of the history reads the list of entries at a position, and references to
variables are found, cut out and replaced by their offsets in bytes. How far the name of a variable
reaches is told by counting bytes, and a name ends between two characters because the first byte of
a character that takes several is none of a name (`Checked.nameWidth_eq`).

The replacement of variables is a loop: each round cuts the rest of the text at its first dollar
sign, puts something out, and goes on with a shorter rest. The loop of this file is given a number
of rounds, and it also gives `none` if they are not enough, so that
`Checked.expandVariables_eq` says that it ends as well.
-/

namespace PocketShell.Checked

open Text (maxWord)

/-! ## References to the history -/

/-- The line with a reference to the history replaced. A number counts from one. -/
def expandHistory (line : String) (history : List String) :
    Option (Except EventReference String) :=
  match EventReference.ofLine? line with
  | none => some (.ok line)
  | some .last =>
      match history.getLast? with
      | some entry => some (.ok entry)
      | none => some (.error .last)
  | some (.entry number) =>
      if number = 0 ∨ history.length < number then some (.error (.entry number))
      else do return .ok (← history[← sub number 1]?)

/-- **A number that is let through is that of an entry.** -/
theorem expandHistory_eq (line : String) (history : List String) :
    expandHistory line history = some (PocketShell.expandHistory line history) := by
  rw [expandHistory, PocketShell.expandHistory]
  cases EventReference.ofLine? line with
  | none => rfl
  | some reference =>
      cases reference with
      | last =>
          dsimp only [EventReference.find?]
          cases history.getLast? with
          | none => rfl
          | some entry => rfl
      | entry number =>
          cases number with
          | zero => rfl
          | succ n =>
              dsimp only [EventReference.find?]
              by_cases hn : n < history.length
              · rw [if_neg (by omega), sub_eq (by omega), Nat.add_sub_cancel,
                  List.getElem?_eq_getElem hn]
                simp [List.getElem?_eq_getElem hn]
              · rw [if_pos (by omega), List.getElem?_eq_none (by omega)]

/-! ## The names of variables, in bytes -/

/-- Whether a byte is an ASCII letter or digit or an underscore. -/
def isNameByte (b : UInt8) : Bool := isNameChar (Char.ofNat b.toNat)

/-- The number of bytes at the start of a text that can stand in a name. -/
def nameWidth (cs : List Char) : Nat :=
  ((cs.flatMap String.utf8EncodeChar).takeWhile isNameByte).length

/-- All characters of names are ASCII characters. -/
theorem isNameChar_of_le {c : Char} (h : 128 ≤ c.toNat) : isNameChar c = false := by
  have hval : 128 ≤ c.val.toNat := h
  have hne : c ≠ '_' := by
    rintro rfl
    revert h
    decide
  have hupper : c.isUpper = false := by
    show decide (c.val ≥ 65 ∧ c.val ≤ 90) = false
    simp [UInt32.le_iff_toNat_le]
    omega
  have hlower : c.isLower = false := by
    show (decide (c.val ≥ 97) && decide (c.val ≤ 122)) = false
    simp [UInt32.le_iff_toNat_le]
    omega
  have hdigit : c.isDigit = false := by
    show (decide (c.val ≥ 48) && decide (c.val ≤ 57)) = false
    simp [UInt32.le_iff_toNat_le]
    omega
  show (c.isUpper || c.isLower || c.isDigit || c == '_') = false
  rw [hupper, hlower, hdigit, beq_eq_false_iff_ne.mpr hne]
  rfl

/-- An ASCII character is one byte, which is that of a name if the character is. -/
theorem utf8EncodeChar_of_lt {c : Char} (h : c.toNat < 128) :
    ∃ b, String.utf8EncodeChar c = [b] ∧ isNameByte b = isNameChar c := by
  have hval : c.val.toNat ≤ 127 := Nat.le_of_lt_succ h
  refine ⟨UInt8.ofNat c.val.toNat, ?_, ?_⟩
  · rw [String.utf8EncodeChar]
    exact if_pos hval
  · have hbyte : (UInt8.ofNat c.val.toNat).toNat = c.toNat := by
      rw [UInt8.toNat_ofNat']
      exact Nat.mod_eq_of_lt (by omega)
    rw [isNameByte, hbyte, Char.ofNat_toNat]

/-- Any other character begins with a byte that is none of a name. -/
theorem utf8EncodeChar_of_le {c : Char} (h : 128 ≤ c.toNat) :
    ∃ b rest, String.utf8EncodeChar c = b :: rest ∧ isNameByte b = false := by
  have hval : ¬ c.val.toNat ≤ 127 := Nat.not_le_of_lt h
  have hfirst : ∀ n : Nat, 128 ≤ n → n < 256 → isNameByte (UInt8.ofNat n) = false := by
    intro n hlow hhigh
    have hvalid : n.isValidChar := .inl (by omega)
    rw [isNameByte, UInt8.toNat_ofNat', Nat.mod_eq_of_lt (by omega)]
    apply isNameChar_of_le
    rw [Char.ofNat, dif_pos hvalid]
    exact hlow
  rw [String.utf8EncodeChar, if_neg hval]
  split_ifs
  · exact ⟨_, _, rfl, hfirst _ (by omega) (by omega)⟩
  · exact ⟨_, _, rfl, hfirst _ (by omega) (by omega)⟩
  · exact ⟨_, _, rfl, hfirst _ (by omega) (by omega)⟩

/-- **A name ends where a character ends.** -/
theorem nameWidth_eq (cs : List Char) :
    nameWidth cs = String.utf8Len (cs.takeWhile isNameChar) := by
  induction cs with
  | nil => rfl
  | cons c cs ih =>
      rw [nameWidth] at ih ⊢
      rw [List.flatMap_cons]
      -- of a longer character already the first byte is none of a name, so counting stops before it
      by_cases hascii : c.toNat < 128
      · obtain ⟨b, hb, hname⟩ := utf8EncodeChar_of_lt hascii
        have hsize : c.utf8Size = 1 := by
          rw [← String.length_utf8EncodeChar, hb, List.length_singleton]
        rw [hb, List.singleton_append, List.takeWhile_cons, List.takeWhile_cons, hname]
        split_ifs
        · rw [List.length_cons, ih, String.utf8Len_cons, hsize]
        · rfl
      · obtain ⟨b, rest, hb, hname⟩ := utf8EncodeChar_of_le (Nat.le_of_not_lt hascii)
        rw [hb, List.cons_append, List.takeWhile_cons, hname, List.takeWhile_cons,
          isNameChar_of_le (Nat.le_of_not_lt hascii)]
        rfl

/-! ## References to variables -/

/-- What is put in the place of a reference by a body in braces, which ends at the offset `stop` of
what follows the brace, and the text after it. A reference to nothing is copied from the text. -/
def replaceBraced (lookup : String → Option String) (rest : List Char) (dollar : Nat)
    (inner : List Char) (stop : Nat) : Option (List Char × List Char) := do
  let name ← upTo inner stop
  let value ← match (lookup (String.ofList name)).filter fun _ => isVariableName name with
    | some value => some value.toList
    | none => between rest dollar (dollar + stop + 3)
  return (value, ← startingAt inner (stop + 1))

/-- What is put in the place of a reference by a name, and the text after it. -/
def replacePlain (lookup : String → Option String) (after : List Char) :
    Option (List Char × List Char) := do
  let width := nameWidth after
  if width = 0 then return (['$'], after)
  else
    let name ← upTo after width
    let value := match lookup (String.ofList name) with
      | some value => value.toList
      | none => '$' :: name
    return (value, ← startingAt after width)

/-- What is put in the place of what the dollar sign at an offset refers to, and the text after
it. -/
def replaceAt (lookup : String → Option String) (rest : List Char) (dollar : Nat) :
    Option (List Char × List Char) := do
  let after ← startingAt rest (dollar + 1)
  match ← dropPrefix ['\x7b'] after with
  | some inner =>
      match find '\x7d' inner with
      | some stop => replaceBraced lookup rest dollar inner stop
      | none => replacePlain lookup after
  | none => replacePlain lookup after

/-- The rest of a text with its references replaced, in at most so many rounds. -/
def replaceRounds (lookup : String → Option String) : Nat → List Char → Option (List Char)
  | 0, _ => none
  | rounds + 1, rest =>
      match find '$' rest with
      | none => some rest
      | some dollar => do
          let before ← upTo rest dollar
          let (value, next) ← replaceAt lookup rest dollar
          return before ++ (value ++ (← replaceRounds lookup rounds next))

/-- A text with its references to variables replaced. -/
def expandVariables (lookup : String → Option String) (text : String) : Option String :=
  (replaceRounds lookup (text.toList.length + 1) text.toList).map String.ofList

/-! ## The pieces of a text -/

variable {lookup : String → Option String}

/-- What becomes of the pieces of a text. -/
def expansion (lookup : String → Option String) (cs : List Char) : List Char :=
  (pieces cs).flatMap (Piece.expand lookup)

theorem expansion_dollar_of_some {after : List Char} {piece : Piece}
    (h : Piece.reference? after = some piece) :
    expansion lookup ('$' :: after)
      = piece.expand lookup ++ expansion lookup (after.drop piece.widthAfterDollar) := by
  rw [expansion, pieces_dollar_of_some h, List.flatMap_cons]
  rfl

theorem expansion_dollar_of_none {after : List Char} (h : Piece.reference? after = none) :
    expansion lookup ('$' :: after) = '$' :: expansion lookup after := by
  rw [expansion, pieces_dollar_of_none h]
  rfl

/-- What stands before the first dollar sign is kept. -/
theorem expansion_append {before : List Char} (h : '$' ∉ before) (rest : List Char) :
    expansion lookup (before ++ rest) = before ++ expansion lookup rest := by
  induction before with
  | nil => rfl
  | cons c before ih =>
      obtain ⟨hc, hbefore⟩ := not_or.mp (mt List.mem_cons.mpr h)
      rw [List.cons_append, expansion, pieces_cons_of_ne (Ne.symm hc), List.flatMap_cons,
        List.cons_append, ← ih hbefore]
      rfl

theorem expansion_of_no_dollar {cs : List Char} (h : '$' ∉ cs) : expansion lookup cs = cs := by
  have hkept := @expansion_append lookup _ h []
  rwa [List.append_nil, show expansion lookup [] = [] from rfl, List.append_nil] at hkept

/-! ## One round -/

/-- A name is cut off where it ends. -/
theorem exists_replacePlain {after : List Char}
    (h : ∀ inner, after = '\x7b' :: inner → Text.cut? '\x7d' inner = none) :
    ∃ value next, replacePlain lookup after = some (value, next) ∧ next.length ≤ after.length ∧
      expansion lookup ('$' :: after) = value ++ expansion lookup next := by
  have href := reference?_eq h
  have hafter : after = after.takeWhile isNameChar ++ after.dropWhile isNameChar :=
    List.takeWhile_append_dropWhile.symm
  rw [replacePlain, nameWidth_eq]
  generalize after.takeWhile isNameChar = name at *
  generalize after.dropWhile isNameChar = tail at *
  by_cases hnil : name = []
  · -- a dollar sign without a name stands for itself
    rw [if_pos hnil] at href
    refine ⟨['$'], after, ?_, le_rfl, expansion_dollar_of_none href⟩
    rw [hnil]
    rfl
  · rw [if_neg hnil] at href
    have hwidth : String.utf8Len name ≠ 0 := mt String.utf8Len_eq_zero.mp hnil
    have hexpansion := @expansion_dollar_of_some lookup _ _ href
    rw [hafter] at hexpansion ⊢
    rw [Piece.widthAfterDollar, List.drop_left] at hexpansion
    refine ⟨_, tail, ?_, by simp, hexpansion⟩
    simp only [if_neg hwidth, upTo_append, startingAt_append, Option.bind_eq_bind,
      Option.bind_some, Piece.expand]
    cases lookup (String.ofList name) with
    | none => rfl
    | some value => rfl

/-- A body in braces is cut out between them, and with them where it is copied. -/
theorem exists_replaceBraced (before : List Char) {body : List Char} (h : '\x7d' ∉ body)
    (tail : List Char) :
    ∃ value,
      replaceBraced lookup (before ++ '$' :: '\x7b' :: (body ++ '\x7d' :: tail))
          (String.utf8Len before) (body ++ '\x7d' :: tail) (String.utf8Len body)
        = some (value, tail) ∧
      expansion lookup ('$' :: '\x7b' :: (body ++ '\x7d' :: tail))
        = value ++ expansion lookup tail := by
  have hexpansion : expansion lookup ('$' :: '\x7b' :: (body ++ '\x7d' :: tail))
      = (Piece.braced body).expand lookup ++ expansion lookup tail := by
    rw [expansion, pieces_braced h, List.flatMap_cons]
    rfl
  have hwritten : between (before ++ '$' :: '\x7b' :: (body ++ '\x7d' :: tail))
      (String.utf8Len before) (String.utf8Len before + String.utf8Len body + 3)
        = some (Piece.braced body).text := by
    have hwidth : String.utf8Len (Piece.braced body).text = String.utf8Len body + 3 := by
      rw [Piece.text, String.utf8Len_append, String.utf8Len_cons, String.utf8Len_cons]
      rfl
    have hcut := between_append before (Piece.braced body).text tail
    rw [hwidth, ← Nat.add_assoc, Piece.text, List.cons_append, List.cons_append,
      List.append_assoc, List.singleton_append] at hcut
    exact hcut
  refine ⟨_, ?_, hexpansion⟩
  rw [replaceBraced, upTo_append, Piece.expand]
  simp only [Option.bind_eq_bind, Option.bind_some, hwritten,
    show String.utf8Len body + 1 = String.utf8Len body + '\x7d'.utf8Size from rfl, startingAt_mark]
  by_cases hname : isVariableName body = true
  · cases hlookup : lookup (String.ofList body) with
    | none => simp [hname]
    | some value => simp [hname, Option.filter]
  · simp [hname]

/-- **One round replaces what the dollar sign refers to**, and leaves a text to go on with. -/
theorem exists_replaceAt (before after : List Char) :
    ∃ value next, replaceAt lookup (before ++ '$' :: after) (String.utf8Len before)
        = some (value, next) ∧ next.length ≤ after.length ∧
      expansion lookup ('$' :: after) = value ++ expansion lookup next := by
  have hafter : startingAt (before ++ '$' :: after) (String.utf8Len before + 1) = some after :=
    startingAt_mark before after
  rw [replaceAt, hafter, Option.bind_eq_bind, Option.bind_some]
  by_cases hbrace : ∃ inner, after = '\x7b' :: inner
  · obtain ⟨inner, rfl⟩ := hbrace
    have hinner : dropPrefix ['\x7b'] ('\x7b' :: inner) = some (some inner) :=
      dropPrefix_append ['\x7b'] inner
    rw [hinner, Option.bind_eq_bind, Option.bind_some]
    dsimp only
    rw [find_eq]
    rcases Text.cut?_cases '\x7d' inner with ⟨-, hcut⟩ | ⟨body, tail, rfl, hbody, hcut⟩
    · -- a brace that nothing closes is no part of a reference
      rw [hcut]
      refine exists_replacePlain fun other hother => ?_
      obtain rfl := (List.cons.inj hother).2
      exact hcut
    · rw [hcut]
      obtain ⟨value, hvalue, hexpansion⟩ := exists_replaceBraced before hbody tail
      exact ⟨value, tail, hvalue, by simp; omega, hexpansion⟩
  · have hnone : dropPrefix ['\x7b'] after = some none := by
      refine dropPrefix_of_not fun ⟨inner, hinner⟩ => hbrace ⟨inner, hinner.symm⟩
    rw [hnone, Option.bind_eq_bind, Option.bind_some]
    exact exists_replacePlain fun inner hinner => absurd ⟨inner, hinner⟩ hbrace

/-! ## The loop -/

/-- The rounds are enough if there is one for each character, and one more. -/
theorem replaceRounds_eq {rounds : Nat} {cs : List Char} (h : cs.length < rounds) :
    replaceRounds lookup rounds cs = some (expansion lookup cs) := by
  induction rounds generalizing cs with
  | zero => exact absurd h (Nat.not_lt_zero _)
  | succ rounds ih =>
      rw [replaceRounds, find_eq]
      rcases Text.cut?_cases '$' cs with ⟨hmem, hcut⟩ | ⟨before, after, rfl, hbefore, hcut⟩
      · rw [hcut, expansion_of_no_dollar hmem]
        rfl
      · obtain ⟨value, next, hround, hle, hexpansion⟩ := @exists_replaceAt lookup before after
        -- at least the dollar sign is gone, so the rounds that are left are enough
        have hnext : next.length < rounds := by
          rw [List.length_append, List.length_cons] at h
          omega
        rw [hcut, expansion_append hbefore, hexpansion]
        simp only [Option.map_some, upTo_append, hround, ih hnext, Option.bind_eq_bind,
          Option.bind_some, Option.pure_def]

/-- **The references in each text can be replaced.** -/
theorem expandVariables_eq (lookup : String → Option String) (text : String) :
    expandVariables lookup text = some (PocketShell.expandVariables lookup text) := by
  rw [expandVariables, replaceRounds_eq (Nat.lt_succ_self _)]
  rfl

end PocketShell.Checked
