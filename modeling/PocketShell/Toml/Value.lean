set_option autoImplicit false

/-! # Tables of a TOML document

A document is a table: keys with values, some of which are tables again. A table comes into
being in one of four ways, and this decides what may still be added to it later: written out
in braces, it is complete; opened by a header, it receives the entries under the header;
named on the way to another table by a header, it can still get a header of its own; named
on the way by a dotted key, it can still get entries by other dotted keys.
-/

namespace PocketShell

/-- How a table has come into being. -/
inductive TableOrigin where
  /-- Written out in braces. -/
  | inline
  /-- Opened by a header of its own. -/
  | header
  /-- On the way to a table that a header has opened. -/
  | onHeaderPath
  /-- On the way to an entry with a dotted key. -/
  | onDottedKey
deriving DecidableEq, Repr

/-- A value of a TOML document. -/
inductive Toml where
  | string (text : String)
  | integer (value : Int)
  | float
  | boolean (value : Bool)
  /-- A date, a time or both, in its full form. -/
  | dateTime (text : String)
  | array (items : List Toml)
  | table (origin : TableOrigin) (entries : List (String × Toml))
  /-- An array of tables that headers have opened, the latest last. -/
  | tables (elements : List (List (String × Toml)))

namespace Toml

/-- The entries of a table. No key occurs twice. -/
abbrev Entries := List (String × Toml)

/-- The value of a key. -/
def get? (entries : Entries) (key : String) : Option Toml :=
  (entries.find? fun entry => entry.1 == key).map Prod.snd

/-- The entries with the value of a key set. -/
def set (entries : Entries) (key : String) (value : Toml) : Entries :=
  if entries.any fun entry => entry.1 == key then
    entries.map fun entry => if entry.1 = key then (key, value) else entry
  else entries ++ [(key, value)]

/-- Changes the table that a path of keys leads to; `none` if the path leads nowhere or the
change is refused. Tables that are missing on the way are made. `dotted` tells whether the
path is that of a dotted key, which never enters a table with a header of its own; an array
of tables is entered at its latest element. `origin` is that of the given table, and the
change is told the origin of the table it changes. -/
def change (dotted : Bool) (f : TableOrigin → Entries → Option Entries) (origin : TableOrigin) :
    List String → Entries → Option Entries
  | [], entries => f origin entries
  | key :: path, entries =>
      match get? entries key with
      | none =>
          let made : TableOrigin := if dotted then .onDottedKey else .onHeaderPath
          (change dotted f made path []).map fun inner => set entries key (.table made inner)
      | some (.table .inline _) => none
      | some (.table found inner) =>
          if dotted && found == .header then none
          else (change dotted f found path inner).map fun inner =>
            set entries key (.table found inner)
      | some (.tables elements) =>
          match elements.getLast? with
          | none => none
          | some latest =>
              (change dotted f .header path latest).map fun latest =>
                set entries key (.tables (elements.dropLast ++ [latest]))
      | some _ => none

/-- Adds an entry with a dotted key, given as the path before the last key and the last
key. The key has to be new, and the table it is added to has to be the given one or one that
dotted keys have made. -/
def addEntry (entries : Entries) (path : List String) (key : String) (value : Toml) :
    Option Entries :=
  change true
    (fun origin inner =>
      if (origin == .onDottedKey || path.isEmpty) && (get? inner key).isNone then
        some (set inner key value)
      else none)
    .header path entries

/-- Opens the table of a header. It has to be new, or only on the way to other tables so
far. -/
def openTable (entries : Entries) (path : List String) (key : String) : Option Entries :=
  change false
    (fun _ inner =>
      match get? inner key with
      | none => some (set inner key (.table .header []))
      | some (.table .onHeaderPath found) => some (set inner key (.table .header found))
      | some _ => none)
    .header path entries

/-- Opens one more element of an array of tables. -/
def openElement (entries : Entries) (path : List String) (key : String) : Option Entries :=
  change false
    (fun _ inner =>
      match get? inner key with
      | none => some (set inner key (.tables [[]]))
      | some (.tables elements) => some (set inner key (.tables (elements ++ [[]])))
      | some _ => none)
    .header path entries

/-- Adds an entry to the table that a header has opened. -/
def addUnder (entries : Entries) (header path : List String) (key : String) (value : Toml) :
    Option Entries :=
  change false (fun _ inner => addEntry inner path key value) .header header entries

end Toml

end PocketShell
