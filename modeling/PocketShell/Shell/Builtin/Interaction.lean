import PocketShell.Shell.Basic
import PocketShell.Text.Blank
import PocketShell.Text.Column

set_option autoImplicit false

/-! # Commands on the session

`echo`, `clear`, `help`, `history`, `alias`, `unalias`, `export`, `unset`, `env` and
`which`.
-/

namespace PocketShell.Builtin

open ShellM

/-- Shows its words, or without words what it receives. -/
def echo : Command Handler where
  description := {
    name := "echo"
    summary := "Print text"
    usage := "echo [text...]"
    category := "shell" }
  action inv := do
    match inv.words, (← read).input with
    | [], some lines => return .lines lines
    | words, _ => return .ofText (Text.join " " words)

/-- Clears the screen. -/
def clear : Command Handler where
  description := {
    name := "clear"
    summary := "Clear the terminal"
    usage := "clear"
    category := "shell"
    aliases := ["cls"] }
  action _ := return .clear

/-! ## Help -/

/-- The lines for one category: its name and one line for each command. -/
def categoryLines (catalogue : Registry Unit) (category : String) : List String :=
  s!"{category}:" :: (catalogue.inCategory category).map fun entry =>
    s!"  {Text.alignLeft 10 entry.name} {entry.description.summary}"

/-- The commands by category, with an empty line after each category. -/
def overviewLines (catalogue : Registry Unit) : List String :=
  let blocks := catalogue.categoryNames.map (categoryLines catalogue)
  (blocks.intersperse [""]).flatten ++ ["", "Type 'help <command>' for details."]

/-- What is known about one command, line by line. -/
def detailLines (description : Description) : List String :=
  [s!"{description.name} - {description.summary}", s!"usage: {description.usage}"] ++
    (if description.aliases.isEmpty then []
      else ["aliases: " ++ Text.join ", " description.aliases]) ++
    (if description.flags.isEmpty then []
      else "flags:" :: description.flags.map fun flag =>
        s!"  {Text.alignLeft 8 flag.name} {flag.help}") ++
    (if description.examples.isEmpty then []
      else "examples:" :: description.examples.map fun line => s!"  {line}")

/-- Shows all commands, or what is known about one. -/
def help : Command Handler where
  description := {
    name := "help"
    summary := "List commands or show help for one"
    usage := "help [command]"
    category := "shell"
    aliases := ["man"]
    examples := ["help", "help ls"] }
  action inv := do
    let catalogue := (← read).catalogue
    match inv.arg? 0 with
    | none => return .lines (overviewLines catalogue)
    | some name =>
        match catalogue.find? name with
        | some entry => return .lines (detailLines entry.description)
        | none => throw (.unknownCommand name)

/-- What is known about `history` itself. -/
def historyDescription : Description where
  name := "history"
  summary := "Show command history"
  usage := "history"
  category := "shell"

/-- The entries of a history with their numbers, counted from `first`. -/
def historyLines (first : Nat) : List String → List String
  | [] => []
  | entry :: rest =>
      s!"{Text.alignRight 4 (toString first)}  {entry}" :: historyLines (first + 1) rest

/-- Shows the lines submitted so far. -/
def history : Command Handler where
  description := historyDescription
  action inv := do
    if inv.words.isEmpty then return .lines (historyLines 1 (← get).history)
    else refuseUsage historyDescription

/-! ## Aliases -/

/-- What is known about `alias` itself. -/
def aliasDescription : Description where
  name := "alias"
  summary := "Define or list aliases"
  usage := "alias [name[=value]]"
  category := "shell"
  examples := ["alias ll='ls -la'", "alias"]

/-- An alias with its value, as it is shown. -/
def aliasLine (name value : String) : String := s!"alias {name}='{value}'"

/-- Shows the aliases, shows one, or defines one. The words are read as one text, so that a
value may look like flags. -/
def «alias» : Command Handler where
  description := aliasDescription
  action inv := do
    let spec := Text.join " " inv.words
    let workspace ← get
    if spec = "" then
      return .lines (workspace.aliases.toList.map fun (name, value) => aliasLine name value)
    else
      match Text.cut? '=' spec.toList with
      | some (name, value) =>
          let name := Text.trimChars name
          if name.isEmpty || name.any Text.isBlank then refuseUsage aliasDescription
          else
            set { workspace with
              aliases := workspace.aliases.insert (String.ofList name) (String.ofList value) }
            return .nothing
      | none =>
          match workspace.aliases[spec]? with
          | some value => return .line (aliasLine spec value)
          | none => refuse (.noAlias "alias" spec)

/-- Removes one alias. -/
def removeAlias (name : String) : ShellM Unit := do
  let workspace ← get
  if workspace.aliases.contains name then
    set { workspace with aliases := workspace.aliases.erase name }
  else refuse (.noAlias "unalias" name)

/-- Removes aliases. -/
def unalias : Command Handler where
  description := {
    name := "unalias"
    summary := "Remove an alias"
    usage := "unalias <name...>"
    category := "shell"
    requiresArgs := true }
  action inv := do
    inv.args.forM removeAlias
    return .nothing

/-! ## Variables -/

/-- The variables with their values, in the order of their names. -/
def variableLines (workspace : Workspace) : List String :=
  workspace.env.toList.map fun (name, value) => s!"{name}={value}"

/-- What is known about `export` itself. -/
def exportDescription : Description where
  name := "export"
  summary := "Set an environment variable"
  usage := "export NAME=value"
  category := "shell"

/-- Sets a variable, or without words shows all of them. -/
def «export» : Command Handler where
  description := exportDescription
  action inv := do
    let workspace ← get
    if inv.words.isEmpty then return .lines (variableLines workspace)
    else
      let spec := (Text.join " " inv.words).toList
      let (name, value) ← orUsage exportDescription (Text.cut? '=' spec)
      if isVariableName name then
        set { workspace with
          env := workspace.env.insert (String.ofList name) (String.ofList value) }
        return .nothing
      else refuse (.invalidIdentifier (String.ofList name))

/-- Removes variables. A name that is no variable is passed over. -/
def unset : Command Handler where
  description := {
    name := "unset"
    summary := "Remove an environment variable"
    usage := "unset <name...>"
    category := "shell"
    requiresArgs := true }
  action inv := do
    modify fun workspace =>
      { workspace with env := inv.args.foldl (·.erase ·) workspace.env }
    return .nothing

/-- Shows the variables. -/
def env : Command Handler where
  description := {
    name := "env"
    summary := "List environment variables"
    usage := "env"
    category := "shell" }
  action _ := return .lines (variableLines (← get))

/-! ## Names -/

/-- What a name leads to: an alias of the session, a command, or nothing. -/
def whichLine (catalogue : Registry Unit) (aliases : Std.TreeMap String String)
    (name : String) : String :=
  match aliases[name]? with
  | some value => s!"{name}: aliased to '{value}'"
  | none =>
      match catalogue.find? name with
      | some entry =>
          if catalogue.isAlias name then s!"{name}: built-in command (alias of {entry.name})"
          else s!"{name}: built-in command"
      | none => s!"which: no {name}"

/-- Shows what names lead to. -/
def which : Command Handler where
  description := {
    name := "which"
    summary := "Show how a name would be resolved"
    usage := "which <name...>"
    category := "shell"
    requiresArgs := true }
  action inv :=
    return .lines (inv.args.map (whichLine (← read).catalogue (← get).aliases))

/-- The commands on the session. -/
def sessionCommands : List (Command Handler) :=
  [echo, clear, help, history, «alias», unalias, «export», unset, env, which]

end PocketShell.Builtin
