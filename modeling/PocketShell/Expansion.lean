import Std.Data.TreeMap
import PocketShell.Text.Numeral
import PocketShell.Text.Search

set_option autoImplicit false

/-! # Expansions

Before a line is divided into commands it is expanded three times. A line that refers to
the history is replaced by the entry it refers to. A first word that is an alias is replaced
by what it stands for, again and again. References to variables are replaced by their
values, once, from left to right.
-/

namespace PocketShell

/-! ## History -/

/-- A reference to an entry of the history. -/
inductive EventReference where
  /-- `!!`: the last entry. -/
  | last
  /-- `!n`: the entry with the number `n`, counted from one. -/
  | entry (number : Nat)
deriving DecidableEq, Repr

namespace EventReference

/-- The reference that a line is, if it is one. -/
def ofLine? (line : String) : Option EventReference :=
  match line.toList with
  | ['!', '!'] => some last
  | '!' :: number => (Text.numeral? Text.maxWord number).map entry
  | _ => none

/-- The entry of a history that is referred to. -/
def find? (history : List String) : EventReference → Option String
  | last => history.getLast?
  | entry 0 => none
  | entry (n + 1) => history[n]?

/-- The reference as text. -/
def text : EventReference → String
  | last => "!!"
  | entry n => s!"!{n}"

end EventReference

/-- The line with a reference to the history replaced. The error is the reference to an
entry that does not exist. -/
def expandHistory (line : String) (history : List String) : Except EventReference String :=
  match EventReference.ofLine? line with
  | none => .ok line
  | some reference =>
      match reference.find? history with
      | some entry => .ok entry
      | none => .error reference

/-! ## Aliases -/

/-- The text up to the first blank, and the blank with what follows it. -/
def firstWord : List Char → List Char × List Char
  | [] => ([], [])
  | c :: cs =>
      if c = ' ' then ([], c :: cs)
      else
        let (word, rest) := firstWord cs
        (c :: word, rest)

/-- The line after at most `passes` replacements of its first word. An alias among `used`
is not replaced again. -/
def replaceAliases (aliases : Std.TreeMap String String) (used : List String) :
    Nat → List Char → List Char
  | 0, line => line
  | passes + 1, line =>
      let (word, rest) := firstWord line
      let name := String.ofList word
      if used.contains name then line
      else
        match aliases[name]? with
        | none => line
        | some value => replaceAliases aliases (name :: used) passes (value.toList ++ rest)

/-- The line with its first word replaced as long as it is an alias that has not been
replaced before, at most `passes` times. -/
def expandAliases (aliases : Std.TreeMap String String) (passes : Nat) (line : String) :
    String :=
  String.ofList (replaceAliases aliases [] passes line.toList)

/-! ## Variables -/

/-- Whether the character can stand in the name of a variable: an ASCII letter, a digit or
an underscore. -/
def isNameChar (c : Char) : Bool := c.isAlphanum || c == '_'

/-- Whether a text is the name of a variable. -/
def isVariableName (name : List Char) : Bool := !name.isEmpty && name.all isNameChar

/-- A piece of a text with references to variables. -/
inductive Piece where
  /-- A character that stands for itself. -/
  | char (c : Char)
  /-- `$name`. -/
  | plain (name : List Char)
  /-- A dollar sign and a body in braces. -/
  | braced (body : List Char)
deriving DecidableEq, Repr

namespace Piece

/-- The piece as it is written. -/
def text : Piece → List Char
  | char c => [c]
  | plain name => '$' :: name
  | braced body => '$' :: '\x7b' :: body ++ ['\x7d']

/-- The number of characters of a reference after its dollar sign. -/
def widthAfterDollar : Piece → Nat
  | char _ => 0
  | plain name => name.length
  | braced body => body.length + 2

/-- The reference whose dollar sign stands right before the text: a body up to the nearest
closing brace, else the longest name. -/
def reference? (cs : List Char) : Option Piece :=
  let name? :=
    match cs.takeWhile isNameChar with
    | [] => none
    | name => some (plain name)
  match cs with
  | '\x7b' :: rest =>
      match Text.cut? '\x7d' rest with
      | some (body, _) => some (braced body)
      | none => name?
  | _ => name?

/-- The value that stands in the place of a piece. A reference to a variable without a
value, or by something that is no name, stays as it is written. -/
def expand (lookup : String → Option String) (piece : Piece) : List Char :=
  match piece with
  | char c => [c]
  | plain name => ((lookup (String.ofList name)).map String.toList).getD piece.text
  | braced body =>
      if isVariableName body then
        ((lookup (String.ofList body)).map String.toList).getD piece.text
      else piece.text

end Piece

/-- The pieces of a text after its first `skip` characters, which belong to the piece
before. -/
def piecesAfter (skip : Nat) : List Char → List Piece
  | [] => []
  | c :: cs =>
      match skip with
      | skip + 1 => piecesAfter skip cs
      | 0 =>
          if c = '$' then
            match Piece.reference? cs with
            | some piece => piece :: piecesAfter piece.widthAfterDollar cs
            | none => .char c :: piecesAfter 0 cs
          else .char c :: piecesAfter 0 cs

/-- The pieces of a text. -/
def pieces (cs : List Char) : List Piece := piecesAfter 0 cs

/-- The text with its references to variables replaced by the values that `lookup` gives.
Values are not looked through for further references. -/
def expandVariables (lookup : String → Option String) (text : String) : String :=
  String.ofList ((pieces text.toList).flatMap (Piece.expand lookup))

end PocketShell
