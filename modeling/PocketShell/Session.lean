import PocketShell.Shell.Builtin

set_option autoImplicit false

/-! # Sessions

A session runs the lines that a user submits. A line goes through the expansions, is divided
into commands, and the commands run one after the other; every failure becomes an error
line, and none ends the session. What is rendered is kept in the scrollback.

The history keeps the submitted lines after the expansion of references to it. A cursor
walks through it: without one the user is at the fresh line after the last entry.
-/

namespace PocketShell

/-- A rendered line. -/
inductive OutputLine where
  /-- The prompt with the line that was typed at it. -/
  | prompt (shown input : String)
  | text (content : String)
  | error (message : String)
deriving DecidableEq, Repr

/-- The line as it is shown. -/
def OutputLine.display : OutputLine → String
  | prompt shown input => shown ++ input
  | text content => content
  | error message => message

/-- What one submitted line has rendered so far. -/
structure Rendering where
  lines : List OutputLine := []
  /-- Whether the screen has been cleared. -/
  cleared : Bool := false
deriving DecidableEq, Repr

namespace Rendering

/-- Adds the result of a command. Clearing drops what is there already. -/
def add (rendering : Rendering) : Except ShellError Output → Rendering
  | .ok (.lines lines) =>
      { rendering with lines := rendering.lines ++ lines.map OutputLine.text }
  | .ok .nothing => rendering
  | .ok .clear => { lines := [], cleared := true }
  | .error error => { rendering with lines := rendering.lines ++ [.error error.message] }

end Rendering

/-- A session. -/
structure Session where
  registry : Registry Handler
  workspace : Workspace
  settings : Settings
  /-- The position in the history, counted from zero; none at the fresh line. -/
  cursor : Option Nat := none
  scrollback : List OutputLine := []

namespace Session

/-- The variables that are set when a session starts. Those of the settings win. -/
def startEnv (settings : Settings) : Std.TreeMap String String :=
  settings.env.toList.foldl (fun env entry => env.insert entry.1 entry.2)
    (Std.TreeMap.ofList
      [("USER", settings.user), ("HOSTNAME", settings.hostname), ("HOME", Path.root),
       ("SHELL", "folio")])

/-- A new session. -/
def start (registry : Registry Handler) (files : FileSystem) (desktop : Desktop)
    (settings : Settings) : Session :=
  { registry
    workspace := {
      files := { files with owner := settings.owner }
      env := startEnv settings
      aliases := settings.aliases
      desktop }
    settings }

/-! ## Looking at a session -/

/-- The submitted lines, the latest last. -/
def history (session : Session) : List String := session.workspace.history

/-- The prompt: user, host and working directory, the root being shown as `~`. -/
def prompt (session : Session) : String :=
  let cwd := session.workspace.files.cwd
  let shown := if cwd = Path.root then "" else cwd
  s!"{session.settings.user}@{session.settings.hostname}:~{shown}$ "

/-- The value of a variable. `PWD` is the working directory unless it is set to something
else. -/
def valueOf? (session : Session) (name : String) : Option String :=
  match session.workspace.env[name]? with
  | some value => some value
  | none => if name = "PWD" then some session.workspace.files.cwd else none

/-! ## Walking through the history -/

/-- Steps to the entry before, and stays at the oldest. -/
def historyUp (session : Session) : Option String × Session :=
  if session.history.isEmpty then (none, session)
  else
    let position := (session.cursor.getD session.history.length) - 1
    (session.history[position]?, { session with cursor := some position })

/-- Steps to the entry after, and past the newest to the fresh line, which is empty. -/
def historyDown (session : Session) : Option String × Session :=
  if session.history.isEmpty then (none, session)
  else
    match session.cursor with
    | none => (none, session)
    | some position =>
        if position + 1 < session.history.length then
          (session.history[position + 1]?, { session with cursor := some (position + 1) })
        else (some "", { session with cursor := none })

/-! ## Running commands -/

/-- The command that a name leads to, as it is written or else in lower case. -/
def command? (session : Session) (name : String) : Option (Command Handler) :=
  (session.registry.find? name <|> session.registry.find? (Text.lower name)).map
    Registered.command

/-- Runs one command on a workspace. It is refused if it is unknown, if it lacks arguments
that it requires, or if the desktop lacks a service that it needs. -/
def run (session : Session) (workspace : Workspace) (input : Option (List String))
    (inv : Invocation) : Except ShellError Output × Workspace :=
  match session.command? inv.name with
  | none => (.error (.unknownCommand inv.name), workspace)
  | some command =>
      if command.description.requiresArgs && inv.args.isEmpty then
        (.error (.command (.usage command.description.usage)), workspace)
      else
        match command.description.needs.find? fun need => !workspace.desktop.has need with
        | some missing => (.error (.desktop (.unavailable missing)), workspace)
        | none =>
            (command.action inv).run {
              catalogue := session.registry.catalogue
              settings := session.settings
              input } |>.run workspace

/-- Runs the commands of a pipeline, each with the output of the one before. The first error
ends the pipeline. -/
def runStages (session : Session) (workspace : Workspace) (input : Option (List String)) :
    List Invocation → Except ShellError Output × Workspace
  | [] => (.ok .nothing, workspace)
  | [inv] => session.run workspace input inv
  | inv :: rest =>
      match session.run workspace input inv with
      | (.ok output, workspace) => session.runStages workspace (some output.forNext) rest
      | (.error error, workspace) => (.error error, workspace)

/-- Runs a pipeline. -/
def runPipeline (session : Session) (workspace : Workspace) :
    Pipeline → Except ShellError Output × Workspace
  | .single inv => session.run workspace none inv
  | .piped stages => session.runStages workspace none stages

/-- Runs the pipelines of a chain. Each runs, whatever became of the one before. -/
def runSegments (session : Session) (workspace : Workspace) (rendering : Rendering) :
    List Segment → Rendering × Workspace
  | [] => (rendering, workspace)
  | segment :: rest =>
      let (result, workspace) := session.runPipeline workspace segment.command
      session.runSegments workspace (rendering.add result) rest

/-- Runs the commands of a line. -/
def runLine (session : Session) (workspace : Workspace) (rendering : Rendering) :
    Line → Rendering × Workspace
  | .pipeline pipeline =>
      let (result, workspace) := session.runPipeline workspace pipeline
      (rendering.add result, workspace)
  | .chain segments => session.runSegments workspace rendering segments

/-- Keeps what a line has rendered. -/
def finish (session : Session) (rendering : Rendering) : List OutputLine × Session :=
  let kept := if rendering.cleared then [] else session.scrollback
  (rendering.lines, { session with scrollback := kept ++ rendering.lines })

/-- The line with its aliases and then its variables expanded. -/
def expand (session : Session) (line : String) : String :=
  expandVariables session.valueOf?
    (expandAliases session.workspace.aliases session.settings.maxAliasDepth line)

/-- Writes a line to the history. -/
def record (session : Session) (line : String) : Session :=
  { session with workspace.history := session.history ++ [line] }

/-- Writes a line to the history and runs it: gives what it renders. -/
def enter (session : Session) (line : String) : List OutputLine × Session :=
  let rendering : Rendering := { lines := [.prompt session.prompt line] }
  let session := session.record line
  match CommandLine.parse (session.expand line) with
  | .error error => session.finish (rendering.add (.error (.line error)))
  | .ok commands =>
      let (rendering, workspace) := session.runLine session.workspace rendering commands
      { session with workspace }.finish rendering

/-- Submits a line: gives what it renders. A line of white space renders a bare prompt; a
reference to no entry of the history renders an error; neither enters the history. -/
def submit (session : Session) (input : String) : List OutputLine × Session :=
  let typed := Text.trim input
  let session := { session with cursor := none }
  if typed = "" then session.finish { lines := [.prompt session.prompt ""] }
  else
    match expandHistory typed session.history with
    | .error reference =>
        let error := CommandError.noEvent reference
        session.finish { lines := [.prompt session.prompt typed, .error error.message] }
    | .ok line => session.enter line

end Session

end PocketShell
