import PocketShell.Text.Numeral

set_option autoImplicit false

/-! # Strings of TOML

A string is written on one line or as a block of lines, and in either case with escapes
between double quotes or literally between single quotes. The quotes of a block are tripled,
and a line feed right after the opening quotes is dropped. One or two quotes may stand right
before the closing quotes of a block. In a block with escapes, a backslash at the end of a
line drops the line end and all white space after it.

The readers expect line ends to be single line feeds. Each gives the content of a string
whose opening quotes have been read, and the rest of the input.
-/

namespace PocketShell.Toml

/-- Whether the character may stand in a comment or, apart from quotes and escapes, in a
string: a tab, or no control character. -/
def isPrintable (c : Char) : Bool := c == '\t' || (0x20 ≤ c.toNat && c.toNat ≠ 0x7F)

/-- The character that a one-letter escape stands for. -/
def escaped? (c : Char) : Option Char :=
  match c with
  | '\x22' | '\\' => some c
  | 'b' => some '\x08'
  | 't' => some '\t'
  | 'n' => some '\n'
  | 'f' => some '\x0c'
  | 'r' => some '\r'
  | _ => none

/-- The character with the code point that hexadecimal digits give. -/
def scalar? (digits : List Char) : Option Char := do
  let point ← Text.hex? digits
  if point < 0xD800 || (0xDFFF < point && point < 0x110000) then some (Char.ofNat point)
  else none

/-- Puts a character in front of the content that has been read. -/
def prepend (c : Char) (content : Option (List Char × List Char)) :
    Option (List Char × List Char) :=
  content.map fun (cs, rest) => (c :: cs, rest)

/-- A string with escapes on one line. -/
def basic? : List Char → Option (List Char × List Char)
  | [] => none
  | '\x22' :: cs => some ([], cs)
  | '\\' :: 'u' :: a :: b :: c :: d :: cs => do
      prepend (← scalar? [a, b, c, d]) (basic? cs)
  | '\\' :: 'U' :: a :: b :: c :: d :: e :: f :: g :: h :: cs => do
      prepend (← scalar? [a, b, c, d, e, f, g, h]) (basic? cs)
  | '\\' :: c :: cs => do prepend (← escaped? c) (basic? cs)
  | c :: cs => if isPrintable c then prepend c (basic? cs) else none

/-- A literal string on one line. -/
def literal? : List Char → Option (List Char × List Char)
  | [] => none
  | '\x27' :: cs => some ([], cs)
  | c :: cs => if isPrintable c then prepend c (literal? cs) else none

/-- What stands between the third closing quote of a block and the rest: up to two more
quotes, which belong to the content. -/
def closing (quote : Char) : List Char → List Char × List Char
  | [] => ([], [])
  | [c] => if c = quote then ([c], []) else ([], [c])
  | c :: d :: cs =>
      if c = quote then
        if d = quote then ([c, d], cs) else ([c], d :: cs)
      else ([], c :: d :: cs)

/-- What a reader of a block with escapes is about. -/
inductive BlockState where
  | text
  /-- It has read a backslash and white space and waits for the end of the line. -/
  | lineEnd
  /-- It drops white space after such a line end. -/
  | folding
deriving DecidableEq, Repr

/-- Whether the character is a blank within a line. -/
def isSpace (c : Char) : Bool := c == ' ' || c == '\t'

/-- A block with escapes, after the line feed that may follow its opening quotes. -/
def basicBlock? (state : BlockState) : List Char → Option (List Char × List Char)
  | [] => none
  | c :: cs =>
      if state = .lineEnd then
        if isSpace c then basicBlock? .lineEnd cs
        else if c = '\n' then basicBlock? .folding cs
        else none
      else if state = .folding && (isSpace c || c == '\n') then basicBlock? .folding cs
      else if c = '\x22' then
        match cs with
        | '\x22' :: '\x22' :: rest => some (closing '\x22' rest)
        | _ => prepend c (basicBlock? .text cs)
      else if c = '\\' then
        match cs with
        | [] => none
        | 'u' :: a :: b :: c :: d :: rest => do
            prepend (← scalar? [a, b, c, d]) (basicBlock? .text rest)
        | 'U' :: a :: b :: c :: d :: e :: f :: g :: h :: rest => do
            prepend (← scalar? [a, b, c, d, e, f, g, h]) (basicBlock? .text rest)
        | e :: rest =>
            if isSpace e || e == '\n' then basicBlock? .lineEnd (e :: rest)
            else do prepend (← escaped? e) (basicBlock? .text rest)
      else if c = '\n' || isPrintable c then prepend c (basicBlock? .text cs)
      else none

/-- A literal block, after the line feed that may follow its opening quotes. -/
def literalBlock? : List Char → Option (List Char × List Char)
  | [] => none
  | '\x27' :: '\x27' :: '\x27' :: cs => some (closing '\x27' cs)
  | c :: cs => if c = '\n' || isPrintable c then prepend c (literalBlock? cs) else none

/-- Drops a line feed in front. -/
def dropLineFeed : List Char → List Char
  | '\n' :: cs => cs
  | cs => cs

/-- A string in front of the input, in any of its four forms. -/
def string? (cs : List Char) : Option (List Char × List Char) :=
  match cs with
  | '\x22' :: '\x22' :: '\x22' :: rest => basicBlock? .text (dropLineFeed rest)
  | '\x22' :: rest => basic? rest
  | '\x27' :: '\x27' :: '\x27' :: rest => literalBlock? (dropLineFeed rest)
  | '\x27' :: rest => literal? rest
  | _ => none

end PocketShell.Toml
