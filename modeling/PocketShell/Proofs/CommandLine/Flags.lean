import PocketShell.CommandLine.Invocation
import PocketShell.Proofs.Expansion
import PocketShell.Proofs.Interleaving
import PocketShell.Proofs.TextMap

set_option autoImplicit false

/-! # The flags of a command

Every word after the name of a command is an argument or introduces flags, and which of the two is
told by its first characters (`IsFlagWord`). What a word introduces is said without the reader
(`Introduces`): a long flag by its name before any equals sign, a cluster of short flags by each of
its characters.

The words are taken one after the other, and each may feed the arguments, the flag words and the
flags at once (`Gathered.take`). The three collections are read off the words one by one
(`foldl_take`), and of the flags the last one to be introduced counts: after one more word a key has
the value that this word introduces, or the one of before (`takeFlags_of_introduces`,
`takeFlags_of_not`), from which the run follows (`getElem?_foldl_takeFlags`). -/

namespace PocketShell

/-! ## The role of a word -/

/-- A word that introduces flags: two dashes with something after them, or one dash and after it a
character that is neither a dash nor a digit. -/
def IsFlagWord (word : List Char) : Prop :=
  (∃ long, long ≠ [] ∧ word = '-' :: '-' :: long) ∨
    ∃ c cluster, c ≠ '-' ∧ c.isDigit = false ∧ word = '-' :: c :: cluster

namespace WordRole

theorem of_cons_of_ne {c : Char} (h : c ≠ '-') (cs : List Char) : of (c :: cs) = argument := by
  simp [of, h]

theorem of_dash_cons_of_ne {c : Char} (h : c ≠ '-') (cs : List Char) :
    of ('-' :: c :: cs) = if c.isDigit then argument else shortFlags (c :: cs) := by
  simp [of, h]

theorem of_long {long : List Char} (h : long ≠ []) :
    of ('-' :: '-' :: long)
      = match Text.cut? '=' long with
        | some (key, value) => longFlag (String.ofList key) (.value (String.ofList value))
        | none => longFlag (String.ofList long) .present := by
  obtain ⟨c, cs, rfl⟩ := List.exists_cons_of_ne_nil h
  rfl

/-- **What the role of a word can be**, told by its characters. -/
inductive Fits : List Char → WordRole → Prop
  | long {key : String} (hne : key ≠ "") (hmark : '=' ∉ key.toList) :
      Fits ('-' :: '-' :: key.toList) (longFlag key .present)
  | valued {key text : String} (hmark : '=' ∉ key.toList) :
      Fits ('-' :: '-' :: (key.toList ++ '=' :: text.toList)) (longFlag key (.value text))
  | short {c : Char} {cluster : List Char} (hdash : c ≠ '-') (hdigit : c.isDigit = false) :
      Fits ('-' :: c :: cluster) (shortFlags (c :: cluster))
  | argument {word : List Char} (h : ¬ IsFlagWord word) : Fits word argument

/-- A word is a flag word exactly if its role is no argument. -/
theorem Fits.isFlagWord_iff {word : List Char} {role : WordRole} (h : Fits word role) :
    IsFlagWord word ↔ role ≠ .argument := by
  cases h with
  | long hne hmark => exact iff_of_true (.inl ⟨_, by simpa using hne, rfl⟩) nofun
  | valued hmark => exact iff_of_true (.inl ⟨_, by simp, rfl⟩) nofun
  | short hdash hdigit => exact iff_of_true (.inr ⟨_, _, hdash, hdigit, rfl⟩) nofun
  | argument hnot => exact iff_of_false hnot (not_not_intro rfl)

/-- The reader finds the role of a long flag, with a value or without. -/
theorem fits_of_long {long : List Char} (h : long ≠ []) :
    Fits ('-' :: '-' :: long) (of ('-' :: '-' :: long)) := by
  rw [of_long h]
  rcases Text.cut?_cases '=' long with ⟨hmark, hcut⟩ | ⟨key, text, rfl, hmark, hcut⟩
  · have hfits : Fits ('-' :: '-' :: (String.ofList long).toList) _ :=
      .long (by simpa using h) (by rwa [String.toList_ofList])
    rw [String.toList_ofList] at hfits
    rwa [hcut]
  · have hfits : Fits ('-' :: '-' :: ((String.ofList key).toList
        ++ '=' :: (String.ofList text).toList)) _ := .valued (by rwa [String.toList_ofList])
    rw [String.toList_ofList, String.toList_ofList] at hfits
    rwa [hcut]

/-- **The reader finds the role of a word.** -/
theorem fits_of (word : List Char) : Fits word (of word) := by
  rcases word with - | ⟨c, - | ⟨d, cs⟩⟩
  · exact .argument (by simp [IsFlagWord])
  · have hlone : of [c] = argument := by
      by_cases hc : c = '-'
      · rw [hc]
        rfl
      · exact of_cons_of_ne hc []
    rw [hlone]
    exact .argument (by simp [IsFlagWord])
  · by_cases hc : c = '-'
    · subst hc
      by_cases hd : d = '-'
      · subst hd
        cases cs with
        | nil => exact .argument (by simp [IsFlagWord])
        | cons l long => exact fits_of_long (List.cons_ne_nil l long)
      · -- short flags, or a negative number
        rw [of_dash_cons_of_ne hd]
        split_ifs with hdigit
        · exact .argument (by simp [IsFlagWord, hd, hdigit])
        · exact .short hd (Bool.eq_false_of_not_eq_true hdigit)
    · rw [of_cons_of_ne hc]
      exact .argument (by simp [IsFlagWord, hc])

/-- A word has one role. -/
theorem Fits.eq_of {word : List Char} {role : WordRole} (h : Fits word role) : of word = role := by
  cases h with
  | @long key hne hmark =>
      have hkey : key.toList ≠ [] := by simpa using hne
      rw [of_long hkey, Text.cut?_of_notMem hmark, String.ofList_toList]
  | @valued key text hmark =>
      have hlong : key.toList ++ '=' :: text.toList ≠ [] := by simp
      rw [of_long hlong, Text.cut?_append hmark]
      dsimp only
      rw [String.ofList_toList, String.ofList_toList]
  | short hdash hdigit => rw [of_dash_cons_of_ne hdash, hdigit, if_neg Bool.false_ne_true]
  | argument hnot =>
      by_contra hne
      exact hnot ((fits_of word).isFlagWord_iff.mpr hne)

end WordRole

namespace Invocation

theorem isArgument_eq_false_iff (word : String) :
    isArgument word = false ↔ IsFlagWord word.toList := by
  rw [isArgument, beq_eq_false_iff_ne]
  exact (WordRole.fits_of word.toList).isFlagWord_iff.symm

/-! ## What a word introduces -/

/-- **The word introduces the key with the value.** -/
inductive Introduces (word key : String) : FlagValue → Prop
  | long (hne : key ≠ "") (hmark : '=' ∉ key.toList)
      (hword : word.toList = '-' :: '-' :: key.toList) : Introduces word key .present
  | valued {text : String} (hmark : '=' ∉ key.toList)
      (hword : word.toList = '-' :: '-' :: (key.toList ++ '=' :: text.toList)) :
      Introduces word key (.value text)
  | short {c d : Char} {cluster : List Char} (hdash : c ≠ '-') (hdigit : c.isDigit = false)
      (hword : word.toList = '-' :: c :: cluster) (hmem : d ∈ c :: cluster)
      (hkey : key = String.singleton d) : Introduces word key .present

variable {word key : String} {value : FlagValue}

/-- A word introduces the flags of its role. -/
theorem introduces_iff :
    Introduces word key value ↔ (key, value) ∈ (WordRole.of word.toList).flags := by
  constructor
  · intro h
    cases h with
    | long hne hmark hword =>
        rw [hword, (WordRole.Fits.long hne hmark).eq_of]
        exact List.mem_singleton_self _
    | valued hmark hword =>
        rw [hword, (WordRole.Fits.valued hmark).eq_of]
        exact List.mem_singleton_self _
    | short hdash hdigit hword hmem hkey =>
        rw [hword, (WordRole.Fits.short hdash hdigit).eq_of, hkey]
        exact List.mem_map_of_mem hmem
  · intro h
    have hfits := WordRole.fits_of word.toList
    generalize WordRole.of word.toList = role at h hfits
    generalize hword : word.toList = cs at hfits
    cases hfits with
    | long hne hmark =>
        obtain ⟨rfl, rfl⟩ := Prod.mk.inj (List.mem_singleton.mp h)
        exact .long hne hmark hword
    | valued hmark =>
        obtain ⟨rfl, rfl⟩ := Prod.mk.inj (List.mem_singleton.mp h)
        exact .valued hmark hword
    | short hdash hdigit =>
        obtain ⟨d, hmem, hflag⟩ := List.mem_map.mp h
        obtain ⟨rfl, rfl⟩ := Prod.mk.inj hflag
        exact .short hdash hdigit hword hmem rfl
    | argument hnot => cases h

/-- A word introduces a key with one value only: a long flag has one key, and the characters of a
cluster come without values. -/
theorem Introduces.unique {other : FlagValue} (h : Introduces word key value)
    (h' : Introduces word key other) : other = value := by
  rw [introduces_iff] at h h'
  generalize WordRole.of word.toList = role at h h'
  cases role with
  | longFlag name given =>
      rw [(Prod.mk.inj (List.mem_singleton.mp h)).2, (Prod.mk.inj (List.mem_singleton.mp h')).2]
  | shortFlags cluster =>
      obtain ⟨c, -, hflag⟩ := List.mem_map.mp h
      obtain ⟨d, -, hflag'⟩ := List.mem_map.mp h'
      rw [← (Prod.mk.inj hflag).2, ← (Prod.mk.inj hflag').2]
  | argument => cases h

/-! ## The flags after some words -/

/-- The flags after one more word. -/
def takeFlags (flags : Std.TreeMap String FlagValue) (word : String) :
    Std.TreeMap String FlagValue :=
  (WordRole.of word.toList).flags.foldl (fun flags flag => flags.insert flag.1 flag.2) flags

theorem getElem?_foldl_insert_of_notMem {given : List (String × FlagValue)}
    (h : ∀ value, (key, value) ∉ given) (flags : Std.TreeMap String FlagValue) :
    (given.foldl (fun flags flag => flags.insert flag.1 flag.2) flags)[key]? = flags[key]? := by
  induction given generalizing flags with
  | nil => rfl
  | cons flag given ih =>
      have hne : key ≠ flag.1 := fun heq => h flag.2 (heq ▸ List.mem_cons_self)
      rw [List.foldl_cons, ih (fun value hmem => h value (List.mem_cons_of_mem flag hmem)),
        getElem?_insert_string, if_neg hne]

theorem getElem?_foldl_insert_of_mem {given : List (String × FlagValue)}
    (hmem : (key, value) ∈ given) (hone : ∀ other, (key, other) ∈ given → other = value)
    (flags : Std.TreeMap String FlagValue) :
    (given.foldl (fun flags flag => flags.insert flag.1 flag.2) flags)[key]? = some value := by
  induction given generalizing flags with
  | nil => cases hmem
  | cons flag given ih =>
      have hrest : ∀ other, (key, other) ∈ given → other = value := fun other hother =>
        hone other (List.mem_cons_of_mem flag hother)
      rw [List.foldl_cons]
      by_cases hagain : (key, value) ∈ given
      · exact ih hagain hrest _
      · -- the key comes here and not again, since it would have the same value
        obtain rfl : (key, value) = flag := (List.mem_cons.mp hmem).resolve_right hagain
        have hnot : ∀ other, (key, other) ∉ given := by
          intro other hother
          rw [hrest other hother] at hother
          exact hagain hother
        rw [getElem?_foldl_insert_of_notMem hnot, getElem?_insert_string, if_pos rfl]

/-- No word introduces the key. -/
def NoneIntroduces (words : List String) (key : String) : Prop :=
  ∀ word ∈ words, ∀ value, ¬ Introduces word key value

/-- The value was introduced by one of the words, and the key by none after it. -/
def LastIntroduced (words : List String) (key : String) (value : FlagValue) : Prop :=
  ∃ earlier word later, words = earlier ++ word :: later ∧ Introduces word key value ∧
    NoneIntroduces later key

/-- **After one more word** a key has the value that the word introduces, or if it introduces none
the one of before. -/
theorem getElem?_takeFlags (flags : Std.TreeMap String FlagValue) (word key : String)
    (value : FlagValue) :
    (takeFlags flags word)[key]? = some value
      ↔ Introduces word key value ∨
        (∀ other, ¬ Introduces word key other) ∧ flags[key]? = some value := by
  by_cases hsome : ∃ given, Introduces word key given
  · obtain ⟨given, hgiven⟩ := hsome
    have hset : (takeFlags flags word)[key]? = some given :=
      getElem?_foldl_insert_of_mem (introduces_iff.mp hgiven)
        (fun _ hother => hgiven.unique (introduces_iff.mpr hother)) flags
    rw [hset, Option.some_inj]
    constructor
    · rintro rfl
      exact .inl hgiven
    · rintro (hvalue | ⟨hnone, -⟩)
      · exact hvalue.unique hgiven
      · exact absurd hgiven (hnone given)
  · have hnone : ∀ other, ¬ Introduces word key other := not_exists.mp hsome
    have hkeep : (takeFlags flags word)[key]? = flags[key]? :=
      getElem?_foldl_insert_of_notMem (fun other => mt introduces_iff.mpr (hnone other)) flags
    rw [hkeep]
    exact ⟨fun hvalue => .inr ⟨hnone, hvalue⟩,
      fun h => (h.resolve_left (hnone value)).2⟩

theorem lastIntroduced_cons {word : String} {words : List String} :
    LastIntroduced (word :: words) key value
      ↔ LastIntroduced words key value ∨ Introduces word key value ∧ NoneIntroduces words key := by
  constructor
  · rintro ⟨earlier, last, later, hwords, hlast, hnone⟩
    cases earlier with
    | nil =>
        obtain ⟨rfl, rfl⟩ := List.cons.inj hwords
        exact .inr ⟨hlast, hnone⟩
    | cons first earlier => exact .inl ⟨earlier, last, later, (List.cons.inj hwords).2, hlast, hnone⟩
  · rintro (⟨earlier, last, later, rfl, hlast, hnone⟩ | ⟨hword, hnone⟩)
    · exact ⟨word :: earlier, last, later, rfl, hlast, hnone⟩
    · exact ⟨[], word, words, rfl, hword, hnone⟩

/-- **After any number of words** a key has the value that was introduced last, or if none of them
introduces it the one of before. -/
theorem getElem?_foldl_takeFlags (words : List String) (flags : Std.TreeMap String FlagValue)
    (key : String) (value : FlagValue) :
    (words.foldl takeFlags flags)[key]? = some value
      ↔ LastIntroduced words key value ∨ NoneIntroduces words key ∧ flags[key]? = some value := by
  induction words generalizing flags with
  | nil =>
      have hnot : ¬ LastIntroduced [] key value := by
        rintro ⟨earlier, word, later, hwords, -⟩
        exact List.append_ne_nil_of_right_ne_nil _ (List.cons_ne_nil _ _) hwords.symm
      exact ⟨fun h => .inr ⟨fun _ hmem => absurd hmem List.not_mem_nil, h⟩,
        fun h => (h.resolve_left hnot).2⟩
  | cons word words ih =>
      rw [List.foldl_cons, ih, getElem?_takeFlags, lastIntroduced_cons, NoneIntroduces,
        NoneIntroduces, List.forall_mem_cons]
      tauto

/-! ## The words in one pass -/

/-- What has been gathered from the words so far. -/
structure Gathered where
  args : List String := []
  flags : Std.TreeMap String FlagValue := ∅
  rawFlags : List String := []

/-- What one more word adds: an argument, or a word with flags and the flags that it introduces, one
after the other. -/
def Gathered.take (gathered : Gathered) (word : String) : Gathered :=
  match WordRole.of word.toList with
  | .longFlag key value =>
      { gathered with
        flags := gathered.flags.insert key value
        rawFlags := gathered.rawFlags ++ [word] }
  | .shortFlags cluster =>
      { gathered with
        flags := cluster.foldl (fun flags c => flags.insert (String.singleton c) .present)
          gathered.flags
        rawFlags := gathered.rawFlags ++ [word] }
  | .argument => { gathered with args := gathered.args ++ [word] }

theorem take_eq (gathered : Gathered) (word : String) :
    gathered.take word
      = { args := gathered.args ++ [word].filter isArgument
          flags := takeFlags gathered.flags word
          rawFlags := gathered.rawFlags ++ [word].filter fun word => !isArgument word } := by
  have harg : isArgument word = (WordRole.of word.toList == .argument) := rfl
  rw [Gathered.take, takeFlags]
  cases hrole : WordRole.of word.toList with
  | longFlag key value =>
      rw [hrole] at harg
      simp [WordRole.flags, harg]
  | shortFlags cluster =>
      rw [hrole] at harg
      simp [WordRole.flags, List.foldl_map, harg]
  | argument =>
      rw [hrole] at harg
      simp [WordRole.flags, harg]

/-- **One pass over the words** gathers the arguments, the flags and the words with flags. -/
theorem foldl_take (words : List String) (gathered : Gathered) :
    words.foldl Gathered.take gathered
      = { args := gathered.args ++ words.filter isArgument
          flags := words.foldl takeFlags gathered.flags
          rawFlags := gathered.rawFlags ++ words.filter fun word => !isArgument word } := by
  induction words generalizing gathered with
  | nil => simp
  | cons word words ih =>
      rw [List.foldl_cons, ih, take_eq, List.foldl_cons]
      simp only [List.append_assoc, ← List.filter_append, List.singleton_append]

/-- An argument introduces nothing. -/
theorem takeFlags_of_isArgument {word : String} (h : isArgument word = true)
    (flags : Std.TreeMap String FlagValue) : takeFlags flags word = flags := by
  rw [isArgument, beq_iff_eq] at h
  rw [takeFlags, h]
  rfl

theorem flags_eq_foldl (inv : Invocation) : inv.flags = inv.words.foldl takeFlags ∅ := by
  rw [flags, givenFlags, List.foldl_flatMap]
  rfl

/-- **The flags are those of the flag words**, taken from left to right. -/
theorem flags_eq_foldl_rawFlags (inv : Invocation) :
    inv.flags = inv.rawFlags.foldl takeFlags ∅ := by
  rw [flags_eq_foldl, rawFlags, List.foldl_filter]
  refine List.foldl_ext _ _ _ fun flags word _ => ?_
  cases harg : isArgument word with
  | true =>
      rw [takeFlags_of_isArgument harg]
      rfl
  | false => rfl

/-! ## The classification of the words -/

theorem exists_ofText? {raw : String} (h : CommandLine.words raw ≠ []) :
    ∃ inv, ofText? raw = some inv ∧ inv.name :: inv.words = CommandLine.words raw := by
  rw [CommandLine.words] at h ⊢
  rw [ofText?, ofChars?]
  cases hwords : CommandLine.wordsOf raw.toList with
  | nil => exact absurd (by rw [hwords]; rfl) h
  | cons name words => exact ⟨_, rfl, rfl⟩

/-- **A flag has the value that was introduced last** by the flag words. -/
theorem getElem?_flags (inv : Invocation) (key : String) (value : FlagValue) :
    inv.flags[key]? = some value ↔ LastIntroduced inv.rawFlags key value := by
  have hempty : (∅ : Std.TreeMap String FlagValue)[key]? ≠ some value := by simp
  rw [flags_eq_foldl_rawFlags, getElem?_foldl_takeFlags]
  exact or_iff_left fun h => hempty h.2

/-- A key that some word introduces is introduced last by one of them. -/
theorem exists_lastIntroduced_iff (words : List String) (key : String) :
    (∃ value, LastIntroduced words key value)
      ↔ ∃ word ∈ words, ∃ value, Introduces word key value := by
  constructor
  · rintro ⟨value, earlier, word, later, rfl, hword, -⟩
    exact ⟨word, List.mem_append_right earlier List.mem_cons_self, value, hword⟩
  · induction words with
    | nil =>
        rintro ⟨word, hmem, -⟩
        exact absurd hmem List.not_mem_nil
    | cons first words ih =>
        intro h
        by_cases hlater : ∃ word ∈ words, ∃ value, Introduces word key value
        · obtain ⟨value, hvalue⟩ := ih hlater
          exact ⟨value, lastIntroduced_cons.mpr (.inl hvalue)⟩
        · -- only the first word introduces it
          obtain ⟨word, hmem, value, hvalue⟩ := h
          have hfirst : word = first := (List.mem_cons.mp hmem).resolve_right fun hword =>
            hlater ⟨word, hword, value, hvalue⟩
          have hnone : NoneIntroduces words key := fun other hother given hgiven =>
            hlater ⟨other, hother, given, hgiven⟩
          exact ⟨value, lastIntroduced_cons.mpr (.inr ⟨hfirst ▸ hvalue, hnone⟩)⟩

theorem hasFlag_iff (inv : Invocation) (key : String) :
    inv.hasFlag key = true ↔ ∃ word ∈ inv.rawFlags, ∃ value, Introduces word key value := by
  rw [hasFlag, Std.TreeMap.contains_eq_isSome_getElem?, Option.isSome_iff_exists,
    ← exists_lastIntroduced_iff]
  exact exists_congr fun value => inv.getElem?_flags key value

/-- **The classification of the words loses nothing.** A text with a word holds a command, whose
name and words are the words of the text. The words are put together from the arguments and the flag
words, which are told by their first characters, and one pass over the words gathers both and the
flags. The flags are those of the flag words, taken from left to right: a key is present if and only
if some flag word introduces it, and has the value of the last one that does. -/
theorem ofText?_classifies {raw : String} (h : CommandLine.words raw ≠ []) :
    ∃ inv, ofText? raw = some inv ∧ inv.name :: inv.words = CommandLine.words raw ∧
      Interleaves inv.args inv.rawFlags inv.words ∧
      (∀ word ∈ inv.words, word ∈ inv.rawFlags ↔ IsFlagWord word.toList) ∧
      (∀ word ∈ inv.words, word ∈ inv.args ↔ ¬ IsFlagWord word.toList) ∧
      inv.words.foldl Gathered.take {}
        = { args := inv.args, flags := inv.flags, rawFlags := inv.rawFlags } ∧
      inv.flags = inv.rawFlags.foldl takeFlags ∅ ∧
      (∀ key, inv.hasFlag key = true
        ↔ ∃ word ∈ inv.rawFlags, ∃ value, Introduces word key value) ∧
      ∀ key value, inv.flags[key]? = some value ↔ LastIntroduced inv.rawFlags key value := by
  obtain ⟨inv, hinv, hwords⟩ := exists_ofText? h
  refine ⟨inv, hinv, hwords, interleaves_filter _ _, fun word hword => ?_, fun word hword => ?_, ?_,
    inv.flags_eq_foldl_rawFlags, inv.hasFlag_iff, inv.getElem?_flags⟩
  · rw [← isArgument_eq_false_iff, rawFlags, List.mem_filter, Bool.not_eq_true']
    exact and_iff_right hword
  · rw [← isArgument_eq_false_iff, args, List.mem_filter, Bool.not_eq_false]
    exact and_iff_right hword
  · rw [foldl_take, ← flags_eq_foldl]
    rfl

/-- A command with flags of all forms, of which some are given again in another form, with a quoted
word, and with arguments that start with a dash. -/
theorem ofText?_classifies_mixed :
    let raw := "f -5 --x=1 -xé a - '--long name=a=b' -- -x-5 --é=2 --x"
    CommandLine.words raw ≠ [] ∧ ∃ inv, ofText? raw = some inv ∧
      inv.name :: inv.words = CommandLine.words raw ∧
      inv.args = ["-5", "a", "-", "--"] ∧
      inv.rawFlags = ["--x=1", "-xé", "--long name=a=b", "-x-5", "--é=2", "--x"] ∧
      inv.flags["x"]? = some .present ∧ LastIntroduced inv.rawFlags "x" .present ∧
      inv.flags["é"]? = some (.value "2") ∧ LastIntroduced inv.rawFlags "é" (.value "2") ∧
      inv.flags["long name"]? = some (.value "a=b") ∧ inv.hasFlag "-" = true ∧
      inv.hasFlag "long" = false := by
  intro raw
  have hword : CommandLine.words raw ≠ [] := by decide +kernel
  obtain ⟨inv, hinv, hwords, -, -, -, -, -, -, hlast⟩ := ofText?_classifies hword
  have hof : ofText? raw = some {
      name := "f"
      words := ["-5", "--x=1", "-xé", "a", "-", "--long name=a=b", "--", "-x-5", "--é=2", "--x"]
      raw := raw } := by decide +kernel
  obtain rfl := Option.some.inj (hinv.symm.trans hof)
  refine ⟨hword, _, hinv, hwords, ?_, ?_, ?_, (hlast _ _).mp ?_, ?_, (hlast _ _).mp ?_, ?_, ?_, ?_⟩
  all_goals decide +kernel

end Invocation

end PocketShell
