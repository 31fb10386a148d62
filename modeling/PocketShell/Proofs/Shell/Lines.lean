import PocketShell.Proofs.FileSystem.Lines
import PocketShell.Proofs.Shell.Builtin
import PocketShell.Proofs.Shell.Ensures
import PocketShell.Proofs.Shell.Registry
import PocketShell.Proofs.TextMap

set_option autoImplicit false

/-! # What the built-in commands print

An output is one text for each line that is rendered. The commands that show what they read take
care of that: they divide a text into its lines. The others print names, paths and values as they
find them, so a line feed in one of these comes out in the middle of a text.

As long as nothing in the workspace holds a line feed (`Workspace.OnLines`), no command prints one,
and most commands bring none into the workspace either, whatever words they are given. The
exceptions are those that print their words or keep them: their lemmas ask for words without line
feeds. The commands for the desktop follow in a module of their own.
-/

namespace PocketShell

open PocketShell.Text (IsLine)

/-! ## Workspaces without line feeds -/

/-- All names and values of the map are texts of one line. -/
def OnLinesMap (map : Std.TreeMap String String) : Prop :=
  ∀ name value : String, map[name]? = some value → IsLine name ∧ IsLine value

theorem OnLinesMap.insert {map : Std.TreeMap String String} (h : OnLinesMap map)
    {name value : String} (hname : IsLine name) (hvalue : IsLine value) :
    OnLinesMap (map.insert name value) := by
  intro other found hfound
  rw [getElem?_insert_string] at hfound
  split_ifs at hfound with heq
  · obtain rfl := Option.some.inj hfound
    rw [heq]
    exact ⟨hname, hvalue⟩
  · exact h other found hfound

theorem OnLinesMap.erase {map : Std.TreeMap String String} (h : OnLinesMap map) (name : String) :
    OnLinesMap (map.erase name) := by
  intro other found hfound
  rw [getElem?_erase_string] at hfound
  split_ifs at hfound
  exact h other found hfound

theorem OnLinesMap.foldl_erase {map : Std.TreeMap String String} (h : OnLinesMap map)
    (names : List String) : OnLinesMap (names.foldl (·.erase ·) map) := by
  induction names generalizing map with
  | nil => exact h
  | cons name rest ih => exact ih (h.erase name)

theorem OnLinesMap.of_mem_toList {map : Std.TreeMap String String} (h : OnLinesMap map)
    {entry : String × String} (hmem : entry ∈ map.toList) : IsLine entry.1 ∧ IsLine entry.2 :=
  h _ _ (Std.TreeMap.mem_toList_iff_getElem?_eq_some.mp hmem)

/-- Whatever the services of the desktop show by name is on one line. -/
structure Desktop.OnLines (desktop : Desktop) : Prop where
  windows : ∀ windows, desktop.windows = some windows → ∀ window ∈ windows.opened, IsLine window.app
  music : ∀ player, desktop.music = some player →
    ∀ track ∈ player.playlist, IsLine track.title ∧ IsLine track.artist
  theme : ∀ choice, desktop.theme = some choice → ∀ name ∈ choice.names, IsLine name
  language : ∀ choice, desktop.language = some choice → ∀ name ∈ choice.names, IsLine name

/-- **Nothing in the workspace holds a line feed**: no path, no variable, no alias, no entry of the
history, and nothing that the desktop shows. The content of files does not count. -/
structure Workspace.OnLines (workspace : Workspace) : Prop where
  files : workspace.files.OnLines
  env : OnLinesMap workspace.env
  aliases : OnLinesMap workspace.aliases
  history : ∀ entry ∈ workspace.history, IsLine entry
  desktop : workspace.desktop.OnLines

/-- The surroundings of a built-in command that receives texts of one line, if any. -/
structure Surroundings.OnLines (surroundings : Surroundings) : Prop where
  catalogue : surroundings.catalogue = Builtin.registry.catalogue
  input : ∀ lines, surroundings.input = some lines → ∀ line ∈ lines, IsLine line

/-- Each text of the output is one line. -/
def Output.OnLines (output : Output) : Prop := ∀ line ∈ output.forNext, IsLine line

theorem Output.onLines_line {text : String} : (Output.line text).OnLines ↔ IsLine text :=
  List.forall_mem_singleton

theorem Output.onLines_nothing : Output.nothing.OnLines := List.forall_mem_nil _

/-- The command, given the invocation, prints lines and leaves a workspace without line feeds. -/
def Command.PrintsLines (command : Command Handler) (inv : Invocation) : Prop :=
  ∀ surroundings : Surroundings, surroundings.OnLines →
    ShellM.Ensures Workspace.OnLines surroundings (command.action inv) Output.OnLines

namespace Builtin

open ShellM (Ensures EnsuresAt)

/-- The words of the invocation are texts of one line. -/
def WordsOnLines (inv : Invocation) : Prop := ∀ word ∈ inv.words, IsLine word

variable {inv : Invocation}

theorem WordsOnLines.args (h : WordsOnLines inv) : ∀ arg ∈ inv.args, IsLine arg :=
  fun arg harg => h arg (List.mem_filter.mp harg).1

/-! ## Commands on files -/

theorem pwd_lines (inv : Invocation) : pwd.PrintsLines inv := fun _ _ =>
  .get fun _ h => ⟨h, Output.onLines_line.mpr h.files.cwd⟩

theorem cd_lines (inv : Invocation) : cd.PrintsLines inv := by
  intro surroundings hs
  refine .bind (.onFiles (P := fun _ => True) (fun workspace h => ?_) fun _ _ _ _ => trivial)
    fun _ _ => .pure Output.onLines_nothing
  exact ⟨h.files.changeDirectory _, h.env, h.aliases, h.history, h.desktop⟩

theorem isLine_entryLine {entry : Entry} (h : entry.OnLines) : IsLine (entryLine entry) := by
  rw [entryLine]
  split
  · next long hlong => exact h.long long hlong
  · split_ifs
    · simp +decide [h.name]
    · exact h.name

theorem listLines_lines (surroundings : Surroundings) (path : Option String)
    (options : ListOptions) :
    Ensures Workspace.OnLines surroundings (listLines path options) fun lines =>
      ∀ line ∈ lines, IsLine line := by
  refine .bind (.askFiles fun workspace h entries hentries => h.files.list hentries)
    fun entries hentries => .pure fun line hline => ?_
  obtain ⟨entry, hentry, rfl⟩ := List.mem_map.mp hline
  exact isLine_entryLine (hentries entry hentry)

theorem listEach_lines (surroundings : Surroundings) (options : ListOptions) {paths : List String}
    (hpaths : ∀ path ∈ paths, IsLine path) :
    Ensures Workspace.OnLines surroundings (listEach options paths) fun lines =>
      ∀ line ∈ lines, IsLine line := by
  induction paths with
  | nil => exact .pure (List.forall_mem_nil _)
  | cons path rest ih =>
      obtain ⟨hpath, hrest⟩ := List.forall_mem_cons.mp hpaths
      refine .bind (listLines_lines surroundings _ _) fun lines hlines => ?_
      refine .bind (ih hrest) fun more hmore => .pure ?_
      have htitle : IsLine s!"{path}:" := by
        simp +decide [hpath]
      have hbetween : ∀ line ∈ (if rest.isEmpty then [] else "" :: more), IsLine line := by
        split_ifs
        · exact List.forall_mem_nil _
        · exact List.forall_mem_cons.mpr ⟨by decide, hmore⟩
      exact List.forall_mem_cons.mpr ⟨htitle, List.forall_mem_append.mpr ⟨hlines, hbetween⟩⟩

theorem ls_lines (hwords : WordsOnLines inv) : ls.PrintsLines inv := by
  intro surroundings hs
  unfold ls
  dsimp only
  split
  · exact .bind (listLines_lines _ _ _) fun _ h => .pure h
  · exact .bind (listLines_lines _ _ _) fun _ h => .pure h
  · exact .bind (listEach_lines _ _ hwords.args) fun _ h => .pure h

theorem cat_lines (inv : Invocation) : cat.PrintsLines inv := by
  intro surroundings hs
  refine .bind (.mapM (Q := fun lines => ∀ line ∈ lines, IsLine line) fun path _ => ?_)
    fun files hfiles => .pure fun line hline => ?_
  · refine .bind (.askFiles (P := fun _ => True) fun _ _ _ _ => trivial) fun content _ => ?_
    exact .pure fun line => Text.isLine_of_mem_lines
  · obtain ⟨lines, hlines, hline⟩ := List.mem_flatten.mp hline
    exact hfiles lines hlines line hline

theorem mkdir_lines (hwords : WordsOnLines inv) : mkdir.PrintsLines inv := by
  intro surroundings hs
  refine .bind (.mapM (Q := fun _ => True) fun path hpath => ?_)
    fun _ _ => .pure Output.onLines_nothing
  refine .onFiles (fun workspace h => ?_) fun _ _ _ _ => trivial
  exact ⟨h.files.makeFolder (hwords.args path hpath) _, h.env, h.aliases, h.history, h.desktop⟩

theorem touch_lines (hwords : WordsOnLines inv) : touch.PrintsLines inv := by
  intro surroundings hs
  refine .bind (.mapM (Q := IsLine) fun path hpath => ?_) fun _ hlines => .pure hlines
  have hline := hwords.args path hpath
  refine .bind (.onFiles (P := fun _ => True) (fun workspace h => ?_) fun _ _ _ _ => trivial)
    fun touched _ => .pure ?_
  · exact ⟨h.files.touch hline, h.env, h.aliases, h.history, h.desktop⟩
  · cases touched <;> simp +decide [touchedLine, hline]

theorem isLine_timeText (time : Option Nat) : IsLine (timeText time) := by
  cases time with
  | none => decide
  | some time => exact Calendar.isLine_fullForm time

theorem isLine_reportLines {report : NodeReport} (h : IsLine report.path) :
    ∀ line ∈ reportLines report, IsLine line := by
  have hkind : IsLine report.kind.name := by
    cases report.kind <;> decide
  have hsubtype : IsLine report.subtype.name := by
    cases report.subtype <;> decide
  simp +decide [reportLines, h, hkind, hsubtype, isLine_timeText]

theorem stat_lines (inv : Invocation) : stat.PrintsLines inv := by
  intro surroundings hs
  refine .bind (.orUsage (P := fun _ => True) fun _ _ => trivial) fun path _ => ?_
  refine .bind (.askFiles fun workspace h report hreport => h.files.report hreport)
    fun report hreport => .pure ?_
  exact isLine_reportLines hreport

theorem find_lines (inv : Invocation) : find.PrintsLines inv := by
  intro surroundings hs
  refine .bind (.orUsage (P := fun _ => True) fun _ _ => trivial) fun search _ => ?_
  exact .bind (.askFiles fun workspace h paths hpaths => h.files.find hpaths)
    fun paths hpaths => .pure hpaths

theorem drawingOf_lines {surroundings : Surroundings} {depth : Nat} {start : Option String}
    {words : List String} (hstart : ∀ path, start = some path → IsLine path)
    (hwords : ∀ word ∈ words, IsLine word) :
    Ensures Workspace.OnLines surroundings (drawingOf depth start words) fun drawing =>
      ∀ path, drawing.2 = some path → IsLine path := by
  fun_induction drawingOf depth start words with
  | case1 => exact .pure hstart
  | case2 => exact .bind (.readCount _ _) fun _ _ => .pure hstart
  | case3 depth start count rest ih =>
      refine .bind (.readCount _ _) fun depth _ => ih depth hstart ?_
      exact fun word hword => hwords word (List.mem_cons_of_mem _ (List.mem_cons_of_mem _ hword))
  | case4 => exact .refuseUsage _
  | case5 depth start word rest _ _ _ ih =>
      obtain ⟨hword, hrest⟩ := List.forall_mem_cons.mp hwords
      refine ih (fun path hpath => ?_) hrest
      rwa [← Option.some.inj hpath]

theorem tree_lines (hwords : WordsOnLines inv) : tree.PrintsLines inv := by
  intro surroundings hs
  refine .read (.bind (drawingOf_lines (by simp) hwords) fun drawing hstart => ?_)
  have hpath : IsLine (drawing.2.getD ".") := by
    cases hdrawing : drawing.2 with
    | none => decide
    | some path => exact hstart path hdrawing
  refine .bind (.askFiles fun workspace h drawn hdrawn => h.files.draw hdrawn)
    fun drawn hlines => .pure ?_
  have hfolders : IsLine (Text.counted drawn.folders "directory" "directories") :=
    Text.isLine_counted _ (by decide) (by decide)
  have hfiles : IsLine (Text.counted drawn.files "file" "files") :=
    Text.isLine_counted _ (by decide) (by decide)
  refine List.forall_mem_cons.mpr ⟨hpath, List.forall_mem_append.mpr ⟨hlines, ?_⟩⟩
  simp +decide [hfolders, hfiles]

/-! ## Commands on the session -/

theorem echo_lines (inv : Invocation) : echo.PrintsLines inv := by
  intro surroundings hs
  refine .read ?_
  split
  · next lines _ hinput => exact .pure (hs.input lines hinput)
  · exact .pure fun line => Text.isLine_of_mem_lines

theorem clear_lines (inv : Invocation) : clear.PrintsLines inv :=
  fun _ _ => .pure (List.forall_mem_nil _)

/-- What is known about a command holds no line feed. -/
structure DescriptionOnLines (description : Description) : Prop where
  name : IsLine description.name
  summary : IsLine description.summary
  usage : IsLine description.usage
  category : IsLine description.category
  aliases : ∀ other ∈ description.aliases, IsLine other
  flags : ∀ flag ∈ description.flags, IsLine flag.name ∧ IsLine flag.help
  examples : ∀ line ∈ description.examples, IsLine line

/-- The texts of a description. -/
def textsOf (description : Description) : List String :=
  [description.name, description.summary, description.usage, description.category] ++
    description.aliases ++ description.examples ++
    description.flags.flatMap fun flag => [flag.name, flag.help]

theorem isLine_descriptions {command : Command Handler} (h : command ∈ commands) :
    DescriptionOnLines command.description := by
  have hbytes : ∀ command ∈ commands, ∀ text ∈ textsOf command.description,
      10 ∉ text.toByteArray.data.toList := by
    decide +kernel
  have hall : ∀ text ∈ textsOf command.description, IsLine text := fun text htext =>
    Text.isLine_of_bytes (hbytes command h text htext)
  simp only [textsOf, List.forall_mem_append, List.forall_mem_cons] at hall
  obtain ⟨⟨⟨⟨hname, hsummary, husage, hcategory, -⟩, haliases⟩, hexamples⟩, hflags⟩ := hall
  refine ⟨hname, hsummary, husage, hcategory, haliases, fun flag hflag => ?_, hexamples⟩
  exact ⟨hflags _ (List.mem_flatMap.mpr ⟨flag, hflag, by simp⟩),
    hflags _ (List.mem_flatMap.mpr ⟨flag, hflag, by simp⟩)⟩

theorem DescriptionOnLines.details {description : Description}
    (h : DescriptionOnLines description) : ∀ line ∈ detailLines description, IsLine line := by
  have hjoin : IsLine (Text.join ", " description.aliases) :=
    Text.isLine_join (by decide) h.aliases
  rw [detailLines]
  simp only [List.forall_mem_append, List.forall_mem_cons]
  refine ⟨⟨⟨⟨?_, ?_, List.forall_mem_nil _⟩, ?_⟩, ?_⟩, ?_⟩
  · simp +decide [h.name, h.summary]
  · simp +decide [h.usage]
  · split_ifs
    · exact List.forall_mem_nil _
    · simp +decide [hjoin]
  · split_ifs
    · exact List.forall_mem_nil _
    · refine List.forall_mem_cons.mpr ⟨by decide, fun line hline => ?_⟩
      obtain ⟨flag, hflag, rfl⟩ := List.mem_map.mp hline
      simp +decide [h.flags flag hflag]
  · split_ifs
    · exact List.forall_mem_nil _
    · refine List.forall_mem_cons.mpr ⟨by decide, fun line hline => ?_⟩
      obtain ⟨shown, hshown, rfl⟩ := List.mem_map.mp hline
      simp +decide [h.examples shown hshown]

theorem consistent_registry : registry.Consistent commands :=
  Registry.consistent_registerAll commands

theorem find?_catalogue {name : String} {entry : Registered Unit}
    (h : registry.catalogue.find? name = some entry) : DescriptionOnLines entry.description := by
  rw [Registry.find?, Registry.catalogue, Std.TreeMap.getElem?_map] at h
  obtain ⟨found, hfound, rfl⟩ := Option.map_eq_some_iff.mp h
  exact isLine_descriptions (consistent_registry.mem_of_find? hfound)

theorem inCategory_catalogue {category : String} {entry : Registered Unit}
    (h : entry ∈ registry.catalogue.inCategory category) :
    DescriptionOnLines entry.description := by
  obtain ⟨name, -, hentry⟩ := List.mem_filterMap.mp (List.mem_mergeSort.mp h)
  rw [Registry.catalogue, Std.TreeMap.getElem?_map] at hentry
  obtain ⟨found, hfound, rfl⟩ := Option.map_eq_some_iff.mp hentry
  rw [consistent_registry.current] at hfound
  exact isLine_descriptions (List.mem_of_getElem? (Registry.lastNamed_spec hfound).2)

theorem categoryNames_catalogue {α : Type} (registry : Registry α) :
    registry.catalogue.categoryNames = registry.categoryNames := rfl

theorem isLine_categoryName {category : String} (h : category ∈ registry.categoryNames) :
    IsLine category := by
  obtain ⟨name, hname⟩ := List.exists_mem_of_ne_nil _ (consistent_registry.listed_ne_nil h)
  obtain ⟨entry, hentry, rfl⟩ := consistent_registry.of_listed category name hname
  exact (isLine_descriptions (List.mem_of_getElem? (Registry.lastNamed_spec hentry).2)).category

theorem isLine_categoryLines {category : String} (h : category ∈ registry.categoryNames) :
    ∀ line ∈ categoryLines registry.catalogue category, IsLine line := by
  refine List.forall_mem_cons.mpr ⟨?_, fun line hline => ?_⟩
  · simp +decide [isLine_categoryName h]
  · obtain ⟨entry, hentry, rfl⟩ := List.mem_map.mp hline
    have hentry := inCategory_catalogue hentry
    have hname : IsLine entry.name := hentry.name
    simp +decide [hname, hentry.summary]

theorem eq_or_mem_of_mem_intersperse {α : Type} {between a : α} {l : List α}
    (h : a ∈ l.intersperse between) : a = between ∨ a ∈ l := by
  induction l using List.twoStepInduction with
  | nil => cases h
  | singleton b => exact .inr h
  | cons_cons b c rest _ ih =>
      rw [List.intersperse_cons_cons, List.mem_cons, List.mem_cons] at h
      rcases h with rfl | rfl | h
      · exact .inr List.mem_cons_self
      · exact .inl rfl
      · exact (ih _ h).imp_right (List.mem_cons_of_mem b)

theorem isLine_overviewLines : ∀ line ∈ overviewLines registry.catalogue, IsLine line := by
  rw [overviewLines]
  refine List.forall_mem_append.mpr ⟨fun line hline => ?_, by simp +decide⟩
  obtain ⟨block, hblock, hline⟩ := List.mem_flatten.mp hline
  -- a block is an empty line, or the lines of a category
  rcases eq_or_mem_of_mem_intersperse hblock with rfl | hblock
  · rw [List.mem_singleton.mp hline]
    decide
  · obtain ⟨category, hcategory, rfl⟩ := List.mem_map.mp hblock
    rw [categoryNames_catalogue] at hcategory
    exact isLine_categoryLines hcategory line hline

theorem help_lines (inv : Invocation) : help.PrintsLines inv := by
  intro surroundings hs
  refine .read ?_
  rw [hs.catalogue]
  dsimp only
  split
  · exact .pure isLine_overviewLines
  · split
    · next entry hentry => exact .pure (find?_catalogue hentry).details
    · exact .throw _

theorem isLine_historyLines (first : Nat) {entries : List String}
    (h : ∀ entry ∈ entries, IsLine entry) : ∀ line ∈ historyLines first entries, IsLine line := by
  induction entries generalizing first with
  | nil => exact List.forall_mem_nil _
  | cons entry rest ih =>
      obtain ⟨hentry, hrest⟩ := List.forall_mem_cons.mp h
      refine List.forall_mem_cons.mpr ⟨?_, ih (first + 1) hrest⟩
      simp +decide [hentry]

theorem history_lines (inv : Invocation) : history.PrintsLines inv := by
  intro surroundings hs
  show Ensures _ _ (if inv.words.isEmpty then _ else _) _
  split_ifs
  · exact .get fun workspace h => ⟨h, isLine_historyLines 1 h.history⟩
  · exact .refuseUsage _

theorem isLine_aliasLine {name value : String} (h : IsLine name ∧ IsLine value) :
    IsLine (aliasLine name value) := by
  simp +decide [aliasLine, h]

theorem WordsOnLines.join (h : WordsOnLines inv) : IsLine (Text.join " " inv.words) :=
  Text.isLine_join (by decide) h

theorem alias_lines (hwords : WordsOnLines inv) : «alias».PrintsLines inv := by
  intro surroundings hs
  refine .get fun workspace h => ?_
  dsimp only
  split_ifs
  · refine Ensures.pure (fun line hline => ?_) workspace h
    obtain ⟨entry, hentry, rfl⟩ := List.mem_map.mp hline
    exact isLine_aliasLine (h.aliases.of_mem_toList hentry)
  · split
    · next name value hcut =>
        split_ifs
        · exact Ensures.refuseUsage _ workspace h
        · -- the name and the value are parts of the words
          obtain ⟨hname, hvalue⟩ := Text.cut?_subset hcut
          have hname : IsLine (String.ofList (Text.trimChars name)) :=
            Text.isLine_ofList.mpr fun hmem =>
              hwords.join (hname (Text.trimChars_subset name hmem))
          have hvalue : IsLine (String.ofList value) :=
            Text.isLine_ofList.mpr fun hmem => hwords.join (hvalue hmem)
          refine Ensures.bind (.set (P := fun _ => True) ?_ trivial)
            (fun _ _ => .pure Output.onLines_nothing) workspace h
          exact ⟨h.files, h.env, h.aliases.insert hname hvalue, h.history, h.desktop⟩
    · split
      · next value hvalue =>
          exact ⟨h, Output.onLines_line.mpr (isLine_aliasLine (h.aliases _ _ hvalue))⟩
      · exact Ensures.refuse _ workspace h

theorem unalias_lines (inv : Invocation) : unalias.PrintsLines inv := by
  intro surroundings hs
  refine .bind (.forM fun name _ => .get fun workspace h => ?_)
    fun _ _ => .pure Output.onLines_nothing
  split_ifs
  · exact ⟨⟨h.files, h.env, h.aliases.erase name, h.history, h.desktop⟩, trivial⟩
  · exact Ensures.refuse _ workspace h

theorem isLine_variableLines {workspace : Workspace} (h : workspace.OnLines) :
    ∀ line ∈ variableLines workspace, IsLine line := by
  intro line hline
  obtain ⟨⟨name, value⟩, hentry, rfl⟩ := List.mem_map.mp hline
  have hentry := h.env.of_mem_toList hentry
  simp +decide [hentry]

theorem export_lines (hwords : WordsOnLines inv) : «export».PrintsLines inv := by
  intro surroundings hs
  refine .get fun workspace h => ?_
  dsimp only
  split_ifs
  · exact ⟨h, isLine_variableLines h⟩
  · refine Ensures.bind (.orUsage (P := fun parts => IsLine (String.ofList parts.1) ∧
      IsLine (String.ofList parts.2)) fun parts hparts => ?_) (fun parts hparts => ?_) workspace h
    · obtain ⟨hname, hvalue⟩ := Text.cut?_subset hparts
      rw [Text.isLine_ofList, Text.isLine_ofList]
      exact ⟨fun hmem => hwords.join (hname hmem), fun hmem => hwords.join (hvalue hmem)⟩
    · split_ifs
      · refine .bind (.set (P := fun _ => True) ?_ trivial)
          fun _ _ => .pure Output.onLines_nothing
        exact ⟨h.files, h.env.insert hparts.1 hparts.2, h.aliases, h.history, h.desktop⟩
      · exact .refuse _

theorem unset_lines (inv : Invocation) : unset.PrintsLines inv := by
  intro surroundings hs
  refine .bind (.modify (P := fun _ => True) (fun workspace h => ?_) trivial)
    fun _ _ => .pure Output.onLines_nothing
  exact ⟨h.files, h.env.foldl_erase inv.args, h.aliases, h.history, h.desktop⟩

theorem env_lines (inv : Invocation) : env.PrintsLines inv :=
  fun _ _ => .get fun _ h => ⟨h, isLine_variableLines h⟩

theorem isLine_whichLine {aliases : Std.TreeMap String String} (haliases : OnLinesMap aliases)
    {name : String} (hname : IsLine name) :
    IsLine (whichLine registry.catalogue aliases name) := by
  unfold whichLine
  split
  · next value hvalue => simp +decide [hname, (haliases _ _ hvalue).2]
  · split
    · next entry hentry =>
        split_ifs
        · have hentry : IsLine entry.name := (find?_catalogue hentry).name
          simp +decide [hname, hentry]
        · simp +decide [hname]
    · simp +decide [hname]

theorem which_lines (hwords : WordsOnLines inv) : which.PrintsLines inv := by
  intro surroundings hs
  refine .read (.get fun workspace h => ⟨h, fun line hline => ?_⟩)
  obtain ⟨name, hname, rfl⟩ := List.mem_map.mp hline
  rw [hs.catalogue]
  exact isLine_whichLine h.aliases (hwords.args name hname)

/-! ## Filters -/

/-- A filter works on lines, whether they come from a file or from another command. -/
theorem readInput_lines {surroundings : Surroundings} (hs : surroundings.OnLines)
    (command : String) (file : Option String) :
    Ensures Workspace.OnLines surroundings (ShellM.readInput command file) fun lines =>
      ∀ line ∈ lines, IsLine line :=
  .readInput hs.input fun _ _ => Text.isLine_of_mem_lines

theorem Selection.isLine_of_mem_numbered (selection : Selection) (first : Nat)
    {lines : List String} (h : ∀ line ∈ lines, IsLine line) :
    ∀ found ∈ selection.numbered first lines, IsLine found.2 := by
  induction lines generalizing first with
  | nil => exact List.forall_mem_nil _
  | cons line rest ih =>
      obtain ⟨hline, hrest⟩ := List.forall_mem_cons.mp h
      rw [Selection.numbered]
      split_ifs
      · exact List.forall_mem_cons.mpr ⟨hline, ih (first + 1) hrest⟩
      · exact ih (first + 1) hrest

theorem Selection.isLine_output (selection : Selection) (count numbers : Bool)
    {input : List String} (h : ∀ line ∈ input, IsLine line) :
    ∀ line ∈ selection.output count numbers input, IsLine line := by
  have hnumbered := selection.isLine_of_mem_numbered 1 h
  intro line hline
  rw [Selection.output] at hline
  dsimp only at hline
  split_ifs at hline
  · rw [List.mem_singleton.mp hline]
    exact Text.isLine_repr _
  · obtain ⟨found, hfound, rfl⟩ := List.mem_map.mp hline
    simp +decide [hnumbered found hfound]
  · obtain ⟨found, hfound, rfl⟩ := List.mem_map.mp hline
    exact hnumbered found hfound

theorem grep_lines (inv : Invocation) : grep.PrintsLines inv := by
  intro surroundings hs
  refine .bind (.orUsage (P := fun _ => True) fun _ _ => trivial) fun pattern _ => ?_
  exact .bind (readInput_lines hs _ _) fun input hinput =>
    .pure (Selection.isLine_output _ _ _ hinput)

theorem head_lines (inv : Invocation) : head.PrintsLines inv := by
  intro surroundings hs
  refine .bind (ShellM.HasEffect.ensures (headOf_effect 10 none inv.words)) fun asked _ => ?_
  refine .bind (readInput_lines hs _ _) fun input hinput => .pure fun line hline => ?_
  exact hinput line (List.mem_of_mem_take hline)

theorem wc_lines (inv : Invocation) : wc.PrintsLines inv := by
  intro surroundings hs
  refine .bind (readInput_lines hs _ _) fun input _ => .pure (Output.onLines_line.mpr ?_)
  split_ifs
  · exact Text.isLine_repr _
  · exact Text.isLine_repr _
  · exact Text.isLine_repr _
  · simp +decide

end Builtin

end PocketShell
