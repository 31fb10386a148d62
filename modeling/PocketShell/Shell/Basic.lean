import PocketShell.CommandLine.Line
import PocketShell.Desktop.Basic
import PocketShell.Expansion
import PocketShell.FileSystem.Listing
import PocketShell.Settings.Basic
import PocketShell.Shell.Registry
import PocketShell.Text.Lines

set_option autoImplicit false

/-! # What a command does

A command reads its invocation and its surroundings, may change the workspace of the
session, and ends with an output or with an error. What it has changed before an error stays
changed. The registry and the settings are surroundings: a command can look at them and cannot
change them. The history is part of the workspace like the variables and the aliases.
-/

namespace PocketShell

/-- Why a command refuses its input. -/
inductive CommandError where
  /-- The command is not written as its usage says. -/
  | usage (text : String)
  /-- A reference to the history leads nowhere. -/
  | noEvent (reference : EventReference)
  /-- There is neither a file nor an output to read. -/
  | noInput (command : String)
  /-- A count is called for and not given. -/
  | missingCount (command : String)
  /-- What is given as a count is none. -/
  | invalidCount (command text : String)
  /-- What is given as a volume is none. -/
  | invalidVolume (text : String)
  /-- No alias has the name; `command` has looked for it. -/
  | noAlias (command name : String)
  /-- The text is no name for a variable. -/
  | invalidIdentifier (text : String)
  /-- A reason of the command's own. -/
  | other (text : String)
deriving DecidableEq, Repr

/-- The error as it is shown. -/
def CommandError.message : CommandError → String
  | usage text => s!"usage: {text}"
  | noEvent reference => s!"{reference.text}: event not found"
  | noInput command => s!"{command}: no input (give a file or pipe into it)"
  | missingCount command => s!"{command}: missing count"
  | invalidCount command text => s!"{command}: invalid count: {text}"
  | invalidVolume text => s!"sound: invalid volume: {text}"
  | noAlias command name => s!"{command}: {name}: not found"
  | invalidIdentifier text => s!"export: not a valid identifier: {text}"
  | other text => text

/-- Why a line or one of its commands fails. -/
inductive ShellError where
  | unknownCommand (name : String)
  | file (error : FileError)
  | command (error : CommandError)
  | line (error : LineError)
  | desktop (error : DesktopError)
deriving DecidableEq, Repr

/-- The error as it is shown. -/
def ShellError.message : ShellError → String
  | unknownCommand name => s!"command not found: {name}"
  | file error => error.message
  | command error => error.message
  | line error => s!"syntax error: {error.message}"
  | desktop error => error.message

/-- What a command puts out. -/
inductive Output where
  /-- Lines of text. -/
  | lines (texts : List String)
  /-- Nothing. -/
  | nothing
  /-- The order to clear the screen. -/
  | clear
deriving DecidableEq, Repr

namespace Output

/-- The lines of a text. -/
def ofText (text : String) : Output := lines (Text.lines text)

/-- One line. -/
def line (text : String) : Output := lines [text]

/-- What the next command of a pipeline receives. -/
def forNext : Output → List String
  | lines texts => texts
  | nothing | clear => []

end Output

/-- The part of a session that commands may change. -/
structure Workspace where
  files : FileSystem
  /-- The variables of the shell. -/
  env : Std.TreeMap String String
  aliases : Std.TreeMap String String
  /-- The lines submitted so far, the present one included, the latest last. -/
  history : List String := []
  desktop : Desktop

/-- The surroundings of a command. -/
structure Surroundings where
  catalogue : Registry Unit
  settings : Settings
  /-- The output of the command before in a pipeline. -/
  input : Option (List String)

/-- A computation in the surroundings of a command, on a workspace. -/
abbrev ShellM (α : Type) := ReaderT Surroundings (ExceptT ShellError (StateM Workspace)) α

/-- What a command does with its invocation. -/
abbrev Handler := Invocation → ShellM Output

namespace ShellM

variable {α : Type}

/-- Ends with a command error. -/
def refuse (error : CommandError) : ShellM α := throw (.command error)

/-- Ends with the usage of a command. -/
def refuseUsage (description : Description) : ShellM α := refuse (.usage description.usage)

/-- The value, or else the usage of a command. -/
def orUsage (description : Description) (value : Option α) : ShellM α :=
  match value with
  | some value => pure value
  | none => refuseUsage description

/-- Asks the file system. -/
def askFiles (ask : FileSystem → Except FileError α) : ShellM α := do
  match ask (← get).files with
  | .ok answer => pure answer
  | .error error => throw (.file error)

/-- Lets the file system do something. -/
def onFiles (act : FileSystem → Except FileError α × FileSystem) : ShellM α := do
  let workspace ← get
  let (result, files) := act workspace.files
  set { workspace with files }
  match result with
  | .ok answer => pure answer
  | .error error => throw (.file error)

/-- Lets one service of the desktop do something. `read` and `write` give its state and
replace it. -/
def onService {σ : Type} (capability : Capability) (read : Desktop → Option σ)
    (write : Desktop → σ → Desktop) (act : σ → Except DesktopError (α × σ)) : ShellM α := do
  let workspace ← get
  match read workspace.desktop with
  | none => throw (.desktop (.unavailable capability))
  | some state =>
      match act state with
      | .ok (answer, state) =>
          set { workspace with desktop := write workspace.desktop state }
          pure answer
      | .error error => throw (.desktop error)

/-- The lines that a filter works on: those of the named file, else the output of the
command before. -/
def readInput (command : String) (file : Option String) : ShellM (List String) := do
  match file with
  | some path => return Text.lines (← askFiles (·.read path))
  | none =>
      match (← read).input with
      | some lines => return lines
      | none => refuse (.noInput command)

/-- The count that a word gives. -/
def readCount (command : String) (word : Option String) : ShellM Nat :=
  match word with
  | none => refuse (.missingCount command)
  | some word =>
      match Text.numeral? Text.maxWord word.toList with
      | some count => pure count
      | none => refuse (.invalidCount command word)

end ShellM

end PocketShell
