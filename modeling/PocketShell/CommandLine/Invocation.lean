import Std.Data.TreeMap
import PocketShell.CommandLine.Words
import PocketShell.Text.Search

set_option autoImplicit false

/-! # Invocations

One command as it is written: its name, the words after the name, and its text. Of the
words some are flags and the others are arguments. A long flag starts with `--` and may
carry a value after `=`; a cluster of short flags starts with `-` and gives one flag for
each character after it. A lone `-` or `--` and a negative number are arguments. A flag
that is given more than once counts as it was given last.
-/

namespace PocketShell

/-- What is known about a flag that was given. -/
inductive FlagValue where
  | present
  | value (text : String)
deriving DecidableEq, Repr

/-- One command as it is written. -/
structure Invocation where
  name : String
  /-- The words after the name. -/
  words : List String
  /-- The text of the command, without white space at its ends. -/
  raw : String
deriving DecidableEq, Repr

/-- The role of a word after the name of a command. -/
inductive WordRole where
  | longFlag (key : String) (value : FlagValue)
  | shortFlags (cluster : List Char)
  | argument
deriving DecidableEq, Repr

namespace WordRole

/-- The role of a word. -/
def of (word : List Char) : WordRole :=
  match word with
  | ['-'] | ['-', '-'] => argument
  | '-' :: '-' :: long =>
      match Text.cut? '=' long with
      | some (key, value) => longFlag (String.ofList key) (.value (String.ofList value))
      | none => longFlag (String.ofList long) .present
  | '-' :: c :: cluster => if c.isDigit then argument else shortFlags (c :: cluster)
  | _ => argument

/-- The flags that a word of the given role introduces, in the order in which they are
written. -/
def flags : WordRole → List (String × FlagValue)
  | longFlag key value => [(key, value)]
  | shortFlags cluster => cluster.map fun c => (String.singleton c, .present)
  | argument => []

end WordRole

namespace Invocation

/-- The command that a text holds, if it holds a word. -/
def ofChars? (raw : List Char) : Option Invocation :=
  match CommandLine.wordsOf raw with
  | [] => none
  | name :: words =>
      some {
        name := String.ofList name
        words := words.map String.ofList
        raw := String.ofList (Text.trimChars raw) }

/-- The command that a text holds, if it holds a word. -/
def ofText? (raw : String) : Option Invocation := ofChars? raw.toList

/-- Whether a word is an argument. -/
def isArgument (word : String) : Bool := WordRole.of word.toList == .argument

/-- The words that are arguments, in order. -/
def args (inv : Invocation) : List String := inv.words.filter isArgument

/-- The words that introduce flags, in order. -/
def rawFlags (inv : Invocation) : List String := inv.words.filter fun word => !isArgument word

/-- The flags in the order in which they are given, repetitions included. -/
def givenFlags (inv : Invocation) : List (String × FlagValue) :=
  inv.words.flatMap fun word => (WordRole.of word.toList).flags

/-- The flags, each as it was given last. -/
def flags (inv : Invocation) : Std.TreeMap String FlagValue :=
  inv.givenFlags.foldl (fun flags flag => flags.insert flag.1 flag.2) ∅

/-- Whether a flag was given, in any form. -/
def hasFlag (inv : Invocation) (name : String) : Bool := inv.flags.contains name

/-- Whether any of several flags was given. -/
def hasAnyFlag (inv : Invocation) (names : List String) : Bool := names.any inv.hasFlag

/-- The value of a flag, if it was given last as `--name=value`. -/
def flagValue? (inv : Invocation) (name : String) : Option String :=
  match inv.flags[name]? with
  | some (.value text) => some text
  | _ => none

/-- The argument with a number, counted from zero. -/
def arg? (inv : Invocation) (index : Nat) : Option String := inv.args[index]?

end Invocation

end PocketShell
