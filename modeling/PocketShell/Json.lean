import PocketShell.Text.Numeral

set_option autoImplicit false

/-! # JSON texts

A reader for JSON in the strict form of RFC 8259: one value, with white space around it
and nothing else. The fields of an object are kept in order and with repetitions, and a
number is kept as it is written, so that the user of a value decides what to make of both.

An escape in a string literal can name half of a surrogate pair without the other half.
Such a literal is well formed, but it stands for no text; its content is `none`.
-/

namespace PocketShell

/-- A JSON value. -/
inductive Json where
  | null
  | bool (value : Bool)
  | number (literal : String)
  | string (content : Option String)
  | array (items : List Json)
  | object (fields : List (Option String × Json))

namespace Json

/-! ## Tokens -/

/-- Drops the white space of JSON. -/
def skipBlank (cs : List Char) : List Char :=
  cs.dropWhile fun c => c == ' ' || c == '\t' || c == '\n' || c == '\r'

/-- The character that a one-letter escape stands for. -/
def escaped? (c : Char) : Option Char :=
  match c with
  | '\x22' | '\\' | '/' => some c
  | 'b' => some '\x08'
  | 'f' => some '\x0c'
  | 'n' => some '\n'
  | 'r' => some '\r'
  | 't' => some '\t'
  | _ => none

/-- The code points of a string literal, after its opening quote, and the rest of the
input. A literal holds no control character. -/
def literal? : List Char → Option (List Nat × List Char)
  | [] => none
  | '\x22' :: cs => some ([], cs)
  | '\\' :: 'u' :: a :: b :: c :: d :: cs => do
      let point ← Text.hex? [a, b, c, d]
      let (points, rest) ← literal? cs
      some (point :: points, rest)
  | '\\' :: c :: cs => do
      let c ← escaped? c
      let (points, rest) ← literal? cs
      some (c.toNat :: points, rest)
  | c :: cs =>
      if c.toNat < 0x20 then none
      else do
        let (points, rest) ← literal? cs
        some (c.toNat :: points, rest)

/-- Whether a code point is the first half of a surrogate pair. -/
def isHigh (point : Nat) : Bool := 0xD800 ≤ point && point < 0xDC00

/-- Whether a code point is the second half of a surrogate pair. -/
def isLow (point : Nat) : Bool := 0xDC00 ≤ point && point < 0xE000

/-- The text that the code points of a literal stand for, surrogate pairs put together;
`none` if a half of a pair stands alone. -/
def textOf? : List Nat → Option (List Char)
  | [] => some []
  | [point] =>
      if isHigh point || isLow point then none else some [Char.ofNat point]
  | point :: next :: points =>
      if isHigh point then
        if isLow next then
          let high := (point - 0xD800) * 0x400
          (textOf? points).map (Char.ofNat (0x10000 + high + (next - 0xDC00)) :: ·)
        else none
      else if isLow point then none
      else (textOf? (next :: points)).map (Char.ofNat point :: ·)

/-- A string literal, after its opening quote: its content and the rest of the input. -/
def content? (cs : List Char) : Option (Option String × List Char) := do
  let (points, rest) ← literal? cs
  some ((textOf? points).map String.ofList, rest)

/-- One or more digits in front of the input, and the rest. -/
def digitRun? (cs : List Char) : Option (List Char × List Char) :=
  match cs.takeWhile Text.isDigit with
  | [] => none
  | run => some (run, cs.dropWhile Text.isDigit)

/-- The integer part of a number: `0`, or digits that do not start with `0`. -/
def wholePart? (cs : List Char) : Option (List Char × List Char) := do
  let (run, rest) ← digitRun? cs
  if run.length > 1 && run.head? == some '0' then none else some (run, rest)

/-- The fraction of a number, empty if there is none. -/
def fraction? : List Char → Option (List Char × List Char)
  | '.' :: cs => do
      let (run, rest) ← digitRun? cs
      some ('.' :: run, rest)
  | cs => some ([], cs)

/-- The exponent of a number, empty if there is none. -/
def exponent? : List Char → Option (List Char × List Char)
  | e :: cs =>
      if e == 'e' || e == 'E' then
        match cs with
        | '+' :: cs => (digitRun? cs).map fun (run, rest) => (e :: '+' :: run, rest)
        | '-' :: cs => (digitRun? cs).map fun (run, rest) => (e :: '-' :: run, rest)
        | cs => (digitRun? cs).map fun (run, rest) => (e :: run, rest)
      else some ([], e :: cs)
  | [] => some ([], [])

/-- A number in front of the input, as it is written. -/
def number? (cs : List Char) : Option (Json × List Char) := do
  let (sign, cs) := match cs with
    | '-' :: cs => (['-'], cs)
    | cs => ([], cs)
  let (whole, cs) ← wholePart? cs
  let (fraction, cs) ← fraction? cs
  let (exponent, cs) ← exponent? cs
  some (.number (String.ofList (sign ++ whole ++ fraction ++ exponent)), cs)

/-! ## Values -/

mutual

/-- A value in front of the input, and the rest. `fuel` bounds the number of calls; twice
the length of the input is enough. -/
def value? (fuel : Nat) (cs : List Char) : Option (Json × List Char) :=
  match fuel with
  | 0 => none
  | fuel + 1 =>
      match skipBlank cs with
      | 'n' :: 'u' :: 'l' :: 'l' :: rest => some (.null, rest)
      | 't' :: 'r' :: 'u' :: 'e' :: rest => some (.bool true, rest)
      | 'f' :: 'a' :: 'l' :: 's' :: 'e' :: rest => some (.bool false, rest)
      | '\x22' :: rest => (content? rest).map fun (content, rest) => (.string content, rest)
      | '[' :: rest =>
          match skipBlank rest with
          | ']' :: rest => some (.array [], rest)
          | rest => (items? fuel rest).map fun (items, rest) => (.array items, rest)
      | '\x7b' :: rest =>
          match skipBlank rest with
          | '\x7d' :: rest => some (.object [], rest)
          | rest => (fields? fuel rest).map fun (fields, rest) => (.object fields, rest)
      | rest => number? rest

/-- The values of an array up to its closing bracket. -/
def items? (fuel : Nat) (cs : List Char) : Option (List Json × List Char) :=
  match fuel with
  | 0 => none
  | fuel + 1 => do
      let (item, rest) ← value? fuel cs
      match skipBlank rest with
      | ']' :: rest => some ([item], rest)
      | ',' :: rest =>
          let (items, rest) ← items? fuel rest
          some (item :: items, rest)
      | _ => none

/-- The fields of an object up to its closing brace. -/
def fields? (fuel : Nat) (cs : List Char) : Option (List (Option String × Json) × List Char) :=
  match fuel with
  | 0 => none
  | fuel + 1 =>
      match skipBlank cs with
      | '\x22' :: rest => do
          let (key, rest) ← content? rest
          match skipBlank rest with
          | ':' :: rest =>
              let (value, rest) ← value? fuel rest
              match skipBlank rest with
              | '\x7d' :: rest => some ([(key, value)], rest)
              | ',' :: rest =>
                  let (fields, rest) ← fields? fuel rest
                  some ((key, value) :: fields, rest)
              | _ => none
          | _ => none
      | _ => none

end

/-- The value that a text holds; `none` if it is not one JSON value. -/
def ofText? (text : String) : Option Json :=
  let cs := text.toList
  match value? (2 * cs.length + 2) cs with
  | some (value, rest) => if (skipBlank rest).isEmpty then some value else none
  | none => none

/-! ## Reading values -/

/-- The number of a literal without sign, fraction and exponent, if a 64-bit word holds
it. -/
def natural? : Json → Option Nat
  | .number literal => (Text.digits? literal.toList).filter (· ≤ Text.maxWord)
  | _ => none

/-- The content of a string that stands for a text. -/
def text? : Json → Option String
  | .string content => content
  | _ => none

end Json

end PocketShell
