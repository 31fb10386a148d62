import PocketShell.CommandLine.Invocation

set_option autoImplicit false

/-! # Lines of commands

A line holds one pipeline, or a chain of pipelines separated by `;` and `&&`. A pipeline
holds one command, or several separated by `|`, each of which receives the output of the
one before. Only free characters act as separators.

In a chain, segments of white space alone are left out. In a pipeline, a command without a
word is an error, which is placed at one of the pipes: the one before the last command, or
the one after any other.
-/

namespace PocketShell

/-- The separators of a chain. -/
inductive Separator where
  /-- `&&` -/
  | both
  /-- `;` -/
  | next
deriving DecidableEq, Repr

/-- The text of a separator. -/
def Separator.text : Separator → String
  | both => "&&"
  | next => ";"

/-- One command, or several of which each feeds the next. -/
inductive Pipeline where
  | single (command : Invocation)
  | piped (stages : List Invocation)
deriving DecidableEq, Repr

/-- The commands of a pipeline. -/
def Pipeline.stages : Pipeline → List Invocation
  | single command => [command]
  | piped stages => stages

/-- A pipeline of a chain with the separator that ends it, if any. -/
structure Segment where
  command : Pipeline
  separator : Option Separator
deriving DecidableEq, Repr

/-- A line of commands. -/
inductive Line where
  | pipeline (command : Pipeline)
  | chain (segments : List Segment)
deriving DecidableEq, Repr

/-- Why a text is no line of commands. Positions count bytes from the start of the pipeline
at fault. -/
inductive LineError where
  /-- There is no word. -/
  | emptyCommand
  /-- The first command of a pipeline has no word. -/
  | unexpectedPipe (position : Nat)
  /-- A command between two pipes has no word. -/
  | emptyStage (position : Nat)
  /-- The last command of a pipeline has no word. -/
  | trailingPipe (position : Nat)
deriving DecidableEq, Repr

namespace LineError

/-- The error as it is shown. Columns count from one. -/
def message : LineError → String
  | emptyCommand => "empty command"
  | unexpectedPipe position => s!"unexpected '|' at column {position + 1}"
  | emptyStage position => s!"empty pipe stage at column {position + 1}"
  | trailingPipe position => s!"unexpected end after '|' at column {position + 1}"

/-- The position of the pipe at fault. -/
def position? : LineError → Option Nat
  | emptyCommand => none
  | unexpectedPipe position | emptyStage position | trailingPipe position => some position

end LineError

namespace CommandLine

/-! ## Pipelines -/

/-- The text before the first free `|`, and after each free `|` its position and the text
up to the next. `position` is the position of the first character. -/
def splitPipes (position : Nat) : List (Char × Bool) → List Char × List (Nat × List Char)
  | [] => ([], [])
  | (c, free) :: rest =>
      let (first, more) := splitPipes (position + c.utf8Size) rest
      if free && c == '|' then ([], (position, first) :: more) else (c :: first, more)

/-- The commands after the first one of a pipeline, each text with the position of the pipe
before it. -/
def laterStages : List (Nat × List Char) → Except LineError (List Invocation)
  | [] => .ok []
  | [(pipe, text)] =>
      match Invocation.ofChars? text with
      | some command => .ok [command]
      | none => .error (.trailingPipe pipe)
  | (_, text) :: (pipe, next) :: rest =>
      match Invocation.ofChars? text with
      | some command => (laterStages ((pipe, next) :: rest)).map (command :: ·)
      | none => .error (.emptyStage pipe)

/-- The pipeline that a text holds. -/
def pipelineOf (cs : List Char) : Except LineError Pipeline :=
  match splitPipes 0 (marked {} cs) with
  | (text, []) =>
      match Invocation.ofChars? text with
      | some command => .ok (.single command)
      | none => .error .emptyCommand
  | (text, (pipe, next) :: rest) =>
      match Invocation.ofChars? text with
      | some command =>
          (laterStages ((pipe, next) :: rest)).map fun stages => .piped (command :: stages)
      | none => .error (.unexpectedPipe pipe)

/-! ## Chains -/

/-- The text before the first separator, and after each separator the text up to the
next. -/
def splitChain : List (Char × Bool) → List Char × List (Separator × List Char)
  | [] => ([], [])
  | (';', true) :: rest =>
      let (first, more) := splitChain rest
      ([], (.next, first) :: more)
  | ('&', true) :: ('&', true) :: rest =>
      let (first, more) := splitChain rest
      ([], (.both, first) :: more)
  | (c, _) :: rest =>
      let (first, more) := splitChain rest
      (c :: first, more)

/-- Each text of a chain with the separator that follows it. -/
def withSeparators (first : List Char) :
    List (Separator × List Char) → List (List Char × Option Separator)
  | [] => [(first, none)]
  | (separator, next) :: rest => (first, some separator) :: withSeparators next rest

/-- The segments of a chain: its texts without white space at their ends, and only those of
which something is left. -/
def segmentTexts (first : List Char) (rest : List (Separator × List Char)) :
    List (List Char × Option Separator) :=
  ((withSeparators first rest).map fun (text, separator) =>
    (Text.trimChars text, separator)).filter fun segment => segment.1 ≠ []

/-- The pipelines of a chain. The first error counts. -/
def segmentsOf : List (List Char × Option Separator) → Except LineError (List Segment)
  | [] => .ok []
  | (text, separator) :: rest => do
      let command ← pipelineOf text
      let segments ← segmentsOf rest
      return { command, separator } :: segments

/-- The line that a text holds. -/
def lineOf (cs : List Char) : Except LineError Line :=
  match splitChain (marked {} cs) with
  | (_, []) => (pipelineOf cs).map .pipeline
  | (first, rest) => (segmentsOf (segmentTexts first rest)).map .chain

/-- The line that a text holds. -/
def parse (text : String) : Except LineError Line := lineOf text.toList

end CommandLine

/-! ## Lines as text -/

/-- The text of a pipeline. -/
def Pipeline.text : Pipeline → String
  | single command => command.raw
  | piped stages => Text.join " | " (stages.map Invocation.raw)

/-- The text of a segment with its separator. -/
def Segment.text (segment : Segment) : String :=
  match segment.separator with
  | some separator => segment.command.text ++ " " ++ separator.text
  | none => segment.command.text

/-- The text of a line. -/
def Line.text : Line → String
  | pipeline command => command.text
  | chain segments => Text.join " " (segments.map Segment.text)

end PocketShell
