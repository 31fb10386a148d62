import PocketShell.Text.Search
import PocketShell.Text.Column
import PocketShell.Text.Numeral
import PocketShell.Toml.Value

set_option autoImplicit false

/-! # Numbers and dates of TOML

Integers are those of a signed 64-bit word, written in decimal, hexadecimal, octal or binary
digits. Floats are decimal fractions, whose values nothing here depends on; but one that
exceeds every finite double is refused. Underscores may stand between digits.

A date has a valid month and day, a time a valid hour, minute and second, where the second
may be 60. The full form of both has two digits for each part, a fraction of a second
without zeros at its end and of at most nine digits, and an offset as `Z` or in hours and
minutes.
-/

namespace PocketShell.Toml

/-! ## Integers -/

/-- The digits that go on a run of digits, without the underscores between them, and the
rest of the input. -/
def moreDigits (isDigit : Char → Bool) : List Char → List Char × List Char
  | [] => ([], [])
  | [c] => if isDigit c then ([c], []) else ([], [c])
  | c :: d :: cs =>
      if isDigit c then
        let (digits, rest) := moreDigits isDigit (d :: cs)
        (c :: digits, rest)
      else if c = '_' && isDigit d then
        let (digits, rest) := moreDigits isDigit cs
        (d :: digits, rest)
      else ([], c :: d :: cs)

/-- One or more digits in front of the input, and the rest. -/
def digitRun? (isDigit : Char → Bool) : List Char → Option (List Char × List Char)
  | c :: cs =>
      if isDigit c then
        let (digits, rest) := moreDigits isDigit cs
        some (c :: digits, rest)
      else none
  | [] => none

/-- Whether a minus sign stands in front, and what follows the sign, if there is one. -/
def sign : List Char → Bool × List Char
  | '-' :: cs => (true, cs)
  | '+' :: cs => (false, cs)
  | cs => (false, cs)

/-- Decimal digits in front of the input: a zero alone, or digits that do not start with
zero. -/
def wholeDigits? : List Char → Option (List Char × List Char)
  | '0' :: cs => some (['0'], cs)
  | cs => digitRun? Text.isDigit cs

/-- The largest number of a signed 64-bit word. -/
def maxSignedWord : Nat := 9223372036854775807

/-- The integer with a sign and an absolute value, if a signed 64-bit word holds it. -/
def inWord? (negative : Bool) (magnitude : Nat) : Option Toml :=
  if negative then
    if magnitude ≤ maxSignedWord + 1 then some (.integer (-magnitude)) else none
  else if magnitude ≤ maxSignedWord then some (.integer magnitude)
  else none

/-- An integer written with digits of the given class after its mark. -/
def radixInteger? (isDigit : Char → Bool) (radix : Nat) (cs : List Char) :
    Option (Toml × List Char) := do
  let (digits, rest) ← digitRun? isDigit cs
  let magnitude := digits.foldl (fun n c => radix * n + (Text.hexDigit? c).getD 0) 0
  let value ← inWord? false magnitude
  some (value, rest)

/-- An integer in front of the input. -/
def integer? (cs : List Char) : Option (Toml × List Char) :=
  match cs with
  | '0' :: 'x' :: rest => radixInteger? (fun c => (Text.hexDigit? c).isSome) 16 rest
  | '0' :: 'o' :: rest => radixInteger? (fun c => '0' ≤ c && c ≤ '7') 8 rest
  | '0' :: 'b' :: rest => radixInteger? (fun c => c == '0' || c == '1') 2 rest
  | cs => do
      let (negative, cs) := sign cs
      let (digits, rest) ← wholeDigits? cs
      let value ← inWord? negative (Text.digitsValue digits)
      some (value, rest)

/-! ## Floats -/

/-- The fraction of a float: its digits and the rest; `none` if a point is not followed by
a digit. -/
def fraction? : List Char → Option (List Char × List Char)
  | '.' :: cs => digitRun? Text.isDigit cs
  | cs => some ([], cs)

/-- The exponent of a float: whether it is negative, its absolute value, and the rest. -/
def exponent? : List Char → Option (Bool × Nat × List Char)
  | c :: cs =>
      if c = 'e' || c = 'E' then do
        let (negative, cs) := sign cs
        let (digits, rest) ← digitRun? Text.isDigit cs
        some (negative, Text.digitsValue digits, rest)
      else some (false, 0, c :: cs)
  | [] => some (false, 0, [])

/-- The least number that is rounded to infinity as a double. -/
def infinityBound : Nat := Nat.pow 2 1024 - Nat.pow 2 970

/-- Whether `digits`, read as an integer and multiplied by ten to the power of the exponent,
exceeds every finite double. Above `10 ^ 309` and below `10 ^ 308` the number of digits
decides. -/
def exceedsDoubles (digits : List Char) (negative : Bool) (exponent : Nat) : Bool :=
  let significant := digits.dropWhile (· == '0')
  let length := significant.length
  if length = 0 then false
  else if negative then
    if length ≤ exponent + 308 then false
    else infinityBound * Nat.pow 10 exponent ≤ Text.digitsValue significant
  else if 309 < length + exponent then true
  else infinityBound ≤ Text.digitsValue significant * Nat.pow 10 exponent

/-- A float in front of the input. -/
def float? (cs : List Char) : Option (Toml × List Char) := do
  let (negative, cs) := sign cs
  match cs with
  | 'i' :: 'n' :: 'f' :: rest | 'n' :: 'a' :: 'n' :: rest => some (.float, rest)
  | _ =>
      let (whole, afterWhole) ← wholeDigits? cs
      let (fraction, afterFraction) ← fraction? afterWhole
      let (smaller, exponent, rest) ← exponent? afterFraction
      if rest.length = afterWhole.length then none
      else
        let down := if smaller then fraction.length + exponent else fraction.length - exponent
        let up := if smaller then 0 else exponent - fraction.length
        if !negative && exceedsDoubles (whole ++ fraction) (up == 0) (if up = 0 then down else up)
        then none
        else some (.float, rest)

/-! ## Dates -/

/-- Two digits in front of the input with a value within bounds, and the rest. -/
def twoDigits? (least most : Nat) : List Char → Option (Nat × List Char)
  | a :: b :: cs =>
      let n := Text.digitsValue [a, b]
      if Text.isDigit a && Text.isDigit b && least ≤ n && n ≤ most then some (n, cs) else none
  | _ => none

/-- Drops a given character in front; `none` if another one stands there. -/
def expect? (mark : Char) : List Char → Option (List Char)
  | c :: cs => if c = mark then some cs else none
  | [] => none

/-- Whether a year has a day more than others. -/
def isLeap (year : Nat) : Bool := year % 4 == 0 && (year % 100 != 0 || year % 400 == 0)

/-- The number of days of a month. -/
def daysOf (year month : Nat) : Nat :=
  if month = 2 then (if isLeap year then 29 else 28)
  else if month = 4 ∨ month = 6 ∨ month = 9 ∨ month = 11 then 30
  else 31

/-- A date in front of the input, in its full form. -/
def date? : List Char → Option (String × List Char)
  | a :: b :: c :: d :: cs =>
      if [a, b, c, d].all Text.isDigit then do
        let year := Text.digitsValue [a, b, c, d]
        let (month, cs) ← twoDigits? 1 12 (← expect? '-' cs)
        let (day, cs) ← twoDigits? 1 (daysOf year month) (← expect? '-' cs)
        some (s!"{Text.zeroFilled 4 year}-{Text.zeroFilled 2 month}-{Text.zeroFilled 2 day}", cs)
      else none
  | _ => none

/-- The fraction of a second in front of the input, in its full form and empty if it is
zero or absent. -/
def secondFraction? : List Char → Option (String × List Char)
  | '.' :: cs =>
      match cs.takeWhile Text.isDigit with
      | [] => none
      | digits =>
          let kept := ((digits.take 9).reverse.dropWhile (· == '0')).reverse
          some (if kept.isEmpty then "" else String.ofList ('.' :: kept), cs.dropWhile Text.isDigit)
  | cs => some ("", cs)

/-- A time of the day in front of the input, in its full form. -/
def time? (cs : List Char) : Option (String × List Char) := do
  let (hour, cs) ← twoDigits? 0 23 cs
  let (minute, cs) ← twoDigits? 0 59 (← expect? ':' cs)
  let (second, cs) ← twoDigits? 0 60 (← expect? ':' cs)
  let (fraction, cs) ← secondFraction? cs
  let clock := Text.join ":" ([hour, minute, second].map (Text.zeroFilled 2))
  some (clock ++ fraction, cs)

/-- An offset from universal time in front of the input, in its full form and empty if it
is absent. -/
def offset? : List Char → Option (String × List Char)
  | 'Z' :: cs | 'z' :: cs => some ("Z", cs)
  | c :: cs =>
      if c = '+' ∨ c = '-' then do
        let (hour, cs) ← twoDigits? 0 23 cs
        let (minute, cs) ← twoDigits? 0 59 (← expect? ':' cs)
        let mark := if c = '-' && hour + minute ≠ 0 then "-" else "+"
        some (s!"{mark}{Text.zeroFilled 2 hour}:{Text.zeroFilled 2 minute}", cs)
      else some ("", c :: cs)
  | [] => some ("", [])

/-- Whether the character may stand between a date and a time. -/
def isTimeMark (c : Char) : Bool := c == 'T' || c == 't' || c == ' '

/-- A time of the day and an offset that follow a date. -/
def timeOfDate? : List Char → Option (String × List Char)
  | mark :: cs =>
      if isTimeMark mark then do
        let (time, cs) ← time? cs
        let (offset, cs) ← offset? cs
        some (s!"T{time}{offset}", cs)
      else none
  | [] => none

/-- A date, a time or both in front of the input. -/
def dateTime? (cs : List Char) : Option (Toml × List Char) :=
  match date? cs with
  | some (date, rest) =>
      match timeOfDate? rest with
      | some (time, rest) => some (.dateTime (date ++ time), rest)
      | none => some (.dateTime date, rest)
  | none => (time? cs).map fun (time, rest) => (.dateTime time, rest)

/-- A date, a time or a number in front of the input. -/
def dateOrNumber? (cs : List Char) : Option (Toml × List Char) :=
  dateTime? cs <|> float? cs <|> integer? cs

end PocketShell.Toml
