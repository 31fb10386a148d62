import PocketShell.Toml.Quoted
import PocketShell.Toml.Scalar

set_option autoImplicit false

/-! # Reading TOML documents

A reader for TOML 1.0. A document is a list of statements, one on a line: entries, and
headers that open a table or one more element of an array of tables. The statements are
carried out one after the other on the table of the document.

Values are nested at most 79 deep, and a key has at most 79 parts.
-/

namespace PocketShell.Toml

/-- How deep values are nested, and how many parts a key has, at most. -/
def maxDepth : Nat := 79

/-! ## White space and comments -/

/-- Drops blanks within a line. -/
def skipSpaces (cs : List Char) : List Char := cs.dropWhile isSpace

/-- Drops white space, line ends and comments. -/
def skipVoid (inComment : Bool) : List Char → List Char
  | [] => []
  | c :: cs =>
      if c = '\n' then skipVoid false cs
      else if inComment then (if isPrintable c then skipVoid true cs else c :: cs)
      else if isSpace c then skipVoid false cs
      else if c = '#' then skipVoid true cs
      else c :: cs

/-- What follows the end of a line, before which only white space and a comment may
stand. -/
def lineEnd? (cs : List Char) : Option (List Char) :=
  let afterComment := match skipSpaces cs with
    | '#' :: rest => rest.dropWhile isPrintable
    | rest => rest
  match afterComment with
  | [] => some []
  | '\n' :: rest => some rest
  | _ => none

/-! ## Keys -/

/-- Whether the character may stand in a key without quotes. -/
def isBareKeyChar (c : Char) : Bool := c.isAlphanum || c == '_' || c == '-'

/-- One part of a key in front of the input. -/
def keyPart? (cs : List Char) : Option (String × List Char) :=
  match cs with
  | '\x22' :: rest => (basic? rest).map fun (key, rest) => (String.ofList key, rest)
  | '\x27' :: rest => (literal? rest).map fun (key, rest) => (String.ofList key, rest)
  | cs =>
      match cs.takeWhile isBareKeyChar with
      | [] => none
      | key => some (String.ofList key, cs.dropWhile isBareKeyChar)

/-- A key of at most `parts` parts in front of the input, with the white space around its
parts: the parts before the last, the last, and the rest of the input. -/
def key? : Nat → List Char → Option (List String × String × List Char)
  | 0, _ => none
  | parts + 1, cs => do
      let (part, cs) ← keyPart? (skipSpaces cs)
      match skipSpaces cs with
      | '.' :: cs =>
          let (path, key, cs) ← key? parts cs
          some (part :: path, key, cs)
      | cs => some ([], part, cs)

/-- A key and the equals sign after it. -/
def assignedKey? (cs : List Char) : Option (List String × String × List Char) := do
  let (path, key, cs) ← key? maxDepth cs
  some (path, key, ← expect? '=' cs)

/-! ## Values -/

mutual

/-- A value in front of the input, in which arrays and tables are nested at most `room`
deep. `fuel` bounds the number of calls; four times the length of the input is enough. -/
def value? (fuel room : Nat) (cs : List Char) : Option (Toml × List Char) :=
  match fuel with
  | 0 => none
  | fuel + 1 =>
      match cs with
      | '\x22' :: _ | '\x27' :: _ =>
          (string? cs).map fun (text, rest) => (.string (String.ofList text), rest)
      | '[' :: rest =>
          match room with
          | 0 => none
          | room + 1 => (items? fuel room rest).map fun (items, rest) => (.array items, rest)
      | '\x7b' :: rest =>
          match room with
          | 0 => none
          | room + 1 =>
              match skipSpaces rest with
              | '\x7d' :: rest => some (.table .inline [], rest)
              | rest => (inlineEntries? fuel room [] rest).map fun (entries, rest) =>
                  (.table .inline entries, rest)
      | 't' :: 'r' :: 'u' :: 'e' :: rest => some (.boolean true, rest)
      | 'f' :: 'a' :: 'l' :: 's' :: 'e' :: rest => some (.boolean false, rest)
      | cs => dateOrNumber? cs

/-- The values of an array up to its closing bracket. A comma may follow the last one. -/
def items? (fuel room : Nat) (cs : List Char) : Option (List Toml × List Char) :=
  match fuel with
  | 0 => none
  | fuel + 1 =>
      match skipVoid false cs with
      | ']' :: rest => some ([], rest)
      | start => do
          let (item, rest) ← value? fuel room start
          match skipVoid false rest with
          | ']' :: rest => some ([item], rest)
          | ',' :: rest =>
              let (items, rest) ← items? fuel room rest
              some (item :: items, rest)
          | _ => none

/-- The entries of a table in braces up to its closing brace, added to those before. -/
def inlineEntries? (fuel room : Nat) (entries : Entries) (cs : List Char) :
    Option (Entries × List Char) :=
  match fuel with
  | 0 => none
  | fuel + 1 => do
      let (path, key, rest) ← assignedKey? cs
      let (value, rest) ← value? fuel room (skipSpaces rest)
      let entries ← addEntry entries path key value
      match skipSpaces rest with
      | '\x7d' :: rest => some (entries, rest)
      | ',' :: rest => inlineEntries? fuel room entries rest
      | _ => none

end

/-! ## Statements -/

/-- A statement of a document. Keys are given as the path before the last part and the last
part. -/
inductive Statement where
  | entry (path : List String) (key : String) (value : Toml)
  | table (path : List String) (key : String)
  | element (path : List String) (key : String)

/-- One statement in front of the input, and what follows its line. -/
def statement? (cs : List Char) : Option (Statement × List Char) :=
  match cs with
  | '[' :: '[' :: rest => do
      let (path, key, rest) ← key? maxDepth rest
      let rest ← lineEnd? (← expect? ']' (← expect? ']' rest))
      some (.element path key, rest)
  | '[' :: rest => do
      let (path, key, rest) ← key? maxDepth rest
      let rest ← lineEnd? (← expect? ']' rest)
      some (.table path key, rest)
  | cs => do
      let (path, key, rest) ← assignedKey? cs
      let (value, rest) ← value? (4 * cs.length + 4) maxDepth (skipSpaces rest)
      some (.entry path key value, ← lineEnd? rest)

/-- The statements of a document. `fuel` bounds the number of statements; the length of the
input is enough. -/
def statements? : Nat → List Char → Option (List Statement)
  | fuel, cs =>
      match skipVoid false cs, fuel with
      | [], _ => some []
      | _, 0 => none
      | start, fuel + 1 => do
          let (statement, rest) ← statement? start
          let statements ← statements? fuel rest
          some (statement :: statements)

/-- Carries out statements on the table of a document. Entries go to the table that the
last header has opened. -/
def carryOut (entries : Entries) (header : List String) : List Statement → Option Entries
  | [] => some entries
  | .entry path key value :: rest => do
      carryOut (← addUnder entries header path key value) header rest
  | .table path key :: rest => do
      carryOut (← openTable entries path key) (path ++ [key]) rest
  | .element path key :: rest => do
      carryOut (← openElement entries path key) (path ++ [key]) rest

/-! ## Documents -/

/-- Makes a line feed of each carriage return that stands before one. -/
def unifyLineEnds : List Char → List Char
  | '\r' :: '\n' :: cs => '\n' :: unifyLineEnds cs
  | c :: cs => c :: unifyLineEnds cs
  | [] => []

/-- Drops the mark that may stand at the start of a text to tell its encoding. -/
def dropByteOrderMark : List Char → List Char
  | '\uFEFF' :: cs => cs
  | cs => cs

/-- The table that a document describes. -/
def ofText? (text : String) : Option Entries := do
  let cs := unifyLineEnds (dropByteOrderMark text.toList)
  carryOut [] [] (← statements? cs.length cs)

end PocketShell.Toml
