import PocketShell.Proofs.CommandLine.Spelling
import PocketShell.Proofs.Expansion
import PocketShell.Proofs.Session.Frame
import PocketShell.Proofs.Session.History
import PocketShell.Proofs.TextMap
import Mathlib.Data.Bool.AllAny

set_option autoImplicit false

/-! # Defining an alias and showing it

An alias is defined by a line such as `alias ll='ls -la'`, and `alias ll` shows this line again
(`alias_roundTrip`). Between what is typed and what is stored stand the expansions, the division
into commands and words, and the cut at the first `=`. None of them touches a value between
quotation marks.

The proof takes these one after the other: a line `alias …` in which nothing is expanded runs the
command `alias` with the word that the rest of the line spells (`submit_alias`), and this command
defines an alias or shows one, depending on the word.
-/

namespace PocketShell

open PocketShell.CommandLine (Spells isOrdinary)

/-! ## The command -/

namespace Builtin

variable {workspace : Workspace} {inv : Invocation}

/-- **A name and a value** define an alias. -/
theorem run_alias_of_definition {name value : List Char}
    (hwords : (Text.join " " inv.words).toList = name ++ '=' :: value) (hne : name ≠ [])
    (hname : ∀ c ∈ name, Text.isBlank c = false ∧ c ≠ '=') (surroundings : Surroundings) :
    ((«alias».action inv).run surroundings).run workspace
      = (.ok .nothing, { workspace with
          aliases := workspace.aliases.insert (String.ofList name) (String.ofList value) }) := by
  have hspec : Text.join " " inv.words ≠ "" := by
    intro hempty
    rw [hempty] at hwords
    simp at hwords
  have hcut : Text.cut? '=' (Text.join " " inv.words).toList = some (name, value) := by
    rw [hwords]
    exact Text.cut?_append (fun hmem => (hname _ hmem).2 rfl) value
  have htrim : Text.trimChars name = name := Text.trimChars_of_no_blank fun c hc => (hname c hc).1
  have haccepted : ¬ (name.isEmpty || name.any Text.isBlank) = true := by
    rw [Bool.or_eq_true, not_or, List.isEmpty_iff, List.any_eq_true]
    exact ⟨hne, fun ⟨c, hc, hblank⟩ => by simp [(hname c hc).1] at hblank⟩
  rw [«alias», ShellM.run_get_bind]
  simp only [if_neg hspec, hcut, htrim, if_neg haccepted]
  rfl

/-- **A name alone** shows what is defined. -/
theorem run_alias_of_name {name value : String} (hwords : Text.join " " inv.words = name)
    (hne : name ≠ "") (hname : '=' ∉ name.toList) (halias : workspace.aliases[name]? = some value)
    (surroundings : Surroundings) :
    ((«alias».action inv).run surroundings).run workspace
      = (.ok (.line (aliasLine name value)), workspace) := by
  rw [«alias», ShellM.run_get_bind]
  simp only [hwords, if_neg hne, Text.cut?_of_notMem hname, halias]
  rfl

end Builtin

/-! ## Lines of one command -/

namespace Session

variable (session : Session)

/-- A line without a dollar sign whose first word is no alias is read as it is written. -/
theorem expand_eq {line : String}
    (halias : session.workspace.aliases[String.ofList (firstWord line.toList).1]? = none)
    (hdollar : '$' ∉ line.toList) : session.expand line = line := by
  rw [expand, expandAliases_of_none halias, expandVariables_of_no_dollar hdollar]

/-- **A line that is one command** renders its prompt and what the command shows. -/
theorem submit_of_single {line : String} (hline : IsEntry line) {inv : Invocation}
    (hparse : CommandLine.parse (session.expand line) = .ok (.pipeline (.single inv))) :
    let entered := { session with cursor := none }.record line
    let run := entered.run entered.workspace none inv
    session.submit line = { entered with workspace := run.2 }.finish
      (Rendering.add { lines := [.prompt session.prompt line] } run.1) := by
  intro entered run
  rw [session.submit_of_some (session.recorded?_of_isEntry hline),
    enter_of_ok { session with cursor := none } hparse]
  rfl

/-! ## Lines of the command `alias` -/

/-- The line is an entry if it does not end with white space. -/
theorem isEntry_alias {text : String} {cs : List Char} {d : Char} (htext : text.toList = cs ++ [d])
    (hd : Text.isBlank d = false) : IsEntry ("alias " ++ text) := by
  have hchars : ("alias " ++ text).toList = 'a' :: ("lias ".toList ++ cs ++ [d]) := by
    rw [String.toList_append, htext]
    rfl
  constructor
  · intro hempty
    rw [hempty] at hchars
    cases hchars
  · rw [Text.trim, hchars, CommandLine.trimChars_of_ends rfl hd, ← hchars, String.ofList_toList]
  · rw [EventReference.ofLine?, hchars]
    rfl

/-- **A line `alias` with one word** runs the command with this word. -/
theorem submit_alias (hregistry : session.registry = Builtin.registry)
    (halias : session.workspace.aliases["alias"]? = none) {text : String} {word : List Char}
    (hspell : Spells text.toList word) (hne : word ≠ []) (hdollar : '$' ∉ text.toList)
    {cs : List Char} {d : Char} (htext : text.toList = cs ++ [d]) (hd : Text.isBlank d = false) :
    let line := "alias " ++ text
    let entered := { session with cursor := none }.record line
    ∃ inv : Invocation, Text.join " " inv.words = String.ofList word ∧ ∀ result after,
      (∀ surroundings, ((Builtin.alias.action inv).run surroundings).run entered.workspace
        = (result, after)) →
      session.submit line = { entered with workspace := after }.finish
        (Rendering.add { lines := [.prompt session.prompt line] } result) := by
  intro line entered
  have hchars : line.toList = "alias".toList ++ ' ' :: text.toList := by
    rw [String.toList_append]
    rfl
  have hexpand : session.expand line = line := by
    refine session.expand_eq ?_ ?_
    · rw [hchars, firstWord_append (by decide)]
      exact halias
    · rw [hchars, List.mem_append, List.mem_cons]
      rintro (hmem | hmem | hmem)
      · revert hmem
        decide
      · cases hmem
      · exact hdollar hmem
  let inv : Invocation :=
    { name := "alias", words := [String.ofList word], raw := Text.trim line }
  have hparse : CommandLine.parse (session.expand line) = .ok (.pipeline (.single inv)) := by
    have hname : Spells "alias".toList "alias".toList :=
      CommandLine.spells_ordinary (List.all_eq_true.mp (by decide))
    have hne' : ∀ w ∈ ["alias".toList, word], w ≠ [] := by simp [hne]
    rw [hexpand]
    exact CommandLine.parse_of_spells hname (.cons hspell .nil) hne' (by simp [hchars])
  have hstarted : entered.started? entered.workspace inv = some Builtin.alias := by
    have hmem : Builtin.alias ∈ Builtin.commands := by
      simp [Builtin.commands, Builtin.sessionCommands]
    have hcommand : entered.command? "alias" = some Builtin.alias := command?_of_mem hregistry hmem
    rw [started?, hcommand]
    rfl
  refine ⟨inv, rfl, fun result after hrun => ?_⟩
  rw [session.submit_of_single (isEntry_alias htext hd) hparse, run_of_started?_eq_some hstarted,
    hrun]

/-! ## Defining and showing -/

/-- A name for which quotation marks are not needed: it has no white space, quotation marks,
backslashes and operators, nothing in it is expanded, and there is no `=` in it. -/
structure IsPlainName (name : String) : Prop where
  ne_empty : name ≠ ""
  plain : ∀ c ∈ name.toList,
    Text.isBlank c = false ∧ c ∉ ['=', '$', '\x27', '\x22', '\\', ';', '|', '&']

namespace IsPlainName

variable {name : String} (h : IsPlainName name)
include h

theorem toList_ne_nil : name.toList ≠ [] := fun hnil => h.ne_empty (String.toList_eq_nil_iff.mp hnil)

theorem equals_notMem : '=' ∉ name.toList := fun hmem => (h.plain _ hmem).2 (by simp)

theorem dollar_notMem : '$' ∉ name.toList := fun hmem => (h.plain _ hmem).2 (by simp)

theorem spells : Spells name.toList name.toList := by
  refine CommandLine.spells_ordinary fun c hc => ?_
  obtain ⟨hblank, hspecial⟩ := h.plain c hc
  simp only [List.mem_cons, List.not_mem_nil, or_false, not_or] at hspecial
  obtain ⟨-, -, hsingle, hdouble, hb, hnext, hpipe, hboth⟩ := hspecial
  simp [isOrdinary, CommandLine.isQuote, hblank, hsingle, hdouble, hb, hnext, hpipe, hboth]

/-- A definition with the value between quotation marks. -/
theorem spells_definition {value : List Char} (hvalue : ∀ c ∈ value, c ∉ ['\x27', '\\', '$']) :
    Spells (name.toList ++ ['='] ++ '\x27' :: (value ++ ['\x27']))
      (name.toList ++ ['='] ++ value) := by
  have hmark : Spells ['='] ['='] := CommandLine.spells_singleton (by decide)
  have hbody : ∀ c ∈ value, c ≠ '\\' ∧ c ≠ '\x27' := by
    intro c hc
    have hspecial := hvalue c hc
    simp only [List.mem_cons, not_or] at hspecial
    exact ⟨hspecial.2.1, hspecial.1⟩
  exact (h.spells.append hmark).append (CommandLine.spells_quotation (by decide) hbody)

end IsPlainName

variable {session} {name value : String}

/-- **Defining an alias** stores the value and shows nothing. -/
theorem submit_definition (hregistry : session.registry = Builtin.registry)
    (halias : session.workspace.aliases["alias"]? = none) (hname : IsPlainName name)
    (hvalue : ∀ c ∈ value.toList, c ∉ ['\x27', '\\', '$']) :
    let line := "alias " ++ (name ++ ("='" ++ value ++ "'"))
    (session.submit line).1 = [.prompt session.prompt line] ∧
      (session.submit line).2.workspace.aliases = session.workspace.aliases.insert name value := by
  intro line
  let text := name ++ ("='" ++ value ++ "'")
  have htext : text.toList = name.toList ++ ['='] ++ '\x27' :: (value.toList ++ ['\x27']) := by
    simp [text]
  have hends : text.toList = name.toList ++ ['='] ++ '\x27' :: value.toList ++ ['\x27'] := by
    simp [text]
  have hspell : Spells text.toList (name.toList ++ ['='] ++ value.toList) := by
    rw [htext]
    exact hname.spells_definition hvalue
  have hdollar : '$' ∉ text.toList := by
    have hbody : '$' ∉ value.toList := fun h => hvalue _ h (by simp)
    rw [htext]
    simp [hname.dollar_notMem, hbody]
  obtain ⟨inv, hwords, hsubmit⟩ :=
    session.submit_alias hregistry halias hspell (by simp) hdollar hends rfl
  -- the one word of the line is cut at its first `=`
  have hsplit : (Text.join " " inv.words).toList = name.toList ++ '=' :: value.toList := by
    rw [hwords, String.toList_ofList]
    simp
  have hclean : ∀ c ∈ name.toList, Text.isBlank c = false ∧ c ≠ '=' := fun c hc =>
    ⟨(hname.plain c hc).1, fun h => hname.equals_notMem (h ▸ hc)⟩
  have hrun := hsubmit _ _
    (Builtin.run_alias_of_definition hsplit hname.toList_ne_nil hclean)
  rw [String.ofList_toList, String.ofList_toList] at hrun
  rw [hrun]
  exact ⟨rfl, rfl⟩

/-- **Naming an alias** shows the line that defines it. -/
theorem submit_lookup (hregistry : session.registry = Builtin.registry)
    (halias : session.workspace.aliases["alias"]? = none) (hname : IsPlainName name)
    (hstored : session.workspace.aliases[name]? = some value) :
    (session.submit ("alias " ++ name)).1
      = [.prompt session.prompt ("alias " ++ name), .text (Builtin.aliasLine name value)] := by
  obtain ⟨cs, d, hlast⟩ := (List.eq_nil_or_concat name.toList).resolve_left hname.toList_ne_nil
  rw [List.concat_eq_append] at hlast
  have hd : Text.isBlank d = false := by
    refine (hname.plain d ?_).1
    rw [hlast]
    simp
  obtain ⟨inv, hwords, hsubmit⟩ := session.submit_alias hregistry halias hname.spells
    hname.toList_ne_nil hname.dollar_notMem hlast hd
  rw [String.ofList_toList] at hwords
  rw [hsubmit _ _ (Builtin.run_alias_of_name hwords hname.ne_empty hname.equals_notMem hstored)]
  rfl

/-! ## The result -/

/-- **An alias that is defined is shown as it was defined.** The value may have any characters but
single quotation marks, backslashes and dollar signs. It is stored as it is written, the other
aliases stay as they are, and the alias is shown with the line that has defined it. -/
theorem alias_roundTrip (hregistry : session.registry = Builtin.registry)
    (halias : session.workspace.aliases["alias"]? = none) (hne : name ≠ "")
    (hother : name ≠ "alias") (hname : ∀ c ∈ name.toList,
      Text.isBlank c = false ∧ c ∉ ['=', '$', '\x27', '\x22', '\\', ';', '|', '&'])
    (hvalue : ∀ c ∈ value.toList, c ∉ ['\x27', '\\', '$']) :
    let line := "alias " ++ name ++ "='" ++ value ++ "'"
    let defined := (session.submit line).2
    (session.submit line).1 = [.prompt session.prompt line] ∧
      (∀ other, defined.workspace.aliases[other]?
        = if other = name then some value else session.workspace.aliases[other]?) ∧
      (defined.submit ("alias " ++ name)).1
        = [.prompt defined.prompt ("alias " ++ name), .text line] := by
  intro line
  have hplain : IsPlainName name := ⟨hne, hname⟩
  have hline : line = "alias " ++ (name ++ ("='" ++ value ++ "'")) := by
    simp [line, String.append_assoc]
  have hregistry' : (session.submit line).2.registry = Builtin.registry :=
    (session.submit_keeps line).1.trans hregistry
  obtain ⟨hshown, hstored⟩ := submit_definition hregistry halias hplain hvalue
  rw [← hline] at hshown hstored
  generalize (session.submit line).2 = defined at hregistry' hstored ⊢
  have haliases : ∀ other, defined.workspace.aliases[other]?
      = if other = name then some value else session.workspace.aliases[other]? := by
    intro other
    rw [hstored]
    exact getElem?_insert_string _ _ _ _
  refine ⟨hshown, haliases, ?_⟩
  have halias' : defined.workspace.aliases["alias"]? = none := by
    rw [haliases, if_neg (Ne.symm hother)]
    exact halias
  exact submit_lookup hregistry' halias' hplain (by rw [haliases, if_pos rfl])

/-- A value with operators, double quotation marks, and white space in a row and at its ends. -/
theorem alias_roundTrip_operators :
    let session := start Builtin.registry .empty .bare {}
    let value := "  echo \"a  b\"; pwd && ls | wc "
    let line := "alias " ++ "-w" ++ "='" ++ value ++ "'"
    line = "alias -w='  echo \"a  b\"; pwd && ls | wc '" ∧
      (session.submit line).1 = [.prompt session.prompt line] ∧
      (session.submit line).2.workspace.aliases["-w"]? = some value ∧
      ((session.submit line).2.submit ("alias " ++ "-w")).1
        = [.prompt (session.submit line).2.prompt ("alias " ++ "-w"), .text line] := by
  intro session value line
  have hregistry : session.registry = Builtin.registry := rfl
  have halias : session.workspace.aliases["alias"]? = none := by decide
  have hname : ∀ c ∈ "-w".toList,
      Text.isBlank c = false ∧ c ∉ ['=', '$', '\x27', '\x22', '\\', ';', '|', '&'] :=
    List.all_iff_forall_prop.mp (by decide)
  have hvalue : ∀ c ∈ value.toList, c ∉ ['\x27', '\\', '$'] :=
    List.all_iff_forall_prop.mp (by decide)
  obtain ⟨hshown, hstored, hagain⟩ :=
    alias_roundTrip hregistry halias (by decide) (by decide) hname hvalue
  refine ⟨by decide, hshown, ?_, hagain⟩
  rw [hstored, if_pos rfl]

end Session

end PocketShell
