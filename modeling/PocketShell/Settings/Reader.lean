import PocketShell.Settings.Basic
import PocketShell.Source
import PocketShell.Toml.Reader

set_option autoImplicit false

/-! # Settings written as a document

Settings are written as a TOML document with an entry for each setting that differs from its
default; other entries are left aside. Variables and aliases are tables of strings, and a
date or time in the place of such a table counts as a table with one reserved key.
-/

namespace PocketShell

/-- Why there are no settings. -/
inductive SettingsError where
  /-- The text is no document, or an entry has a value of the wrong kind. -/
  | malformed
  /-- Aliases have to be replaced at least once. -/
  | noAliasDepth
  /-- There is no text. -/
  | unreadable (error : SourceError)
deriving DecidableEq, Repr

/-- The error as it is shown. Of a malformed document only the first words are told, not the account
of the place at fault that follows them. -/
def SettingsError.message : SettingsError → String
  | malformed => "TOML parse error"
  | noAliasDepth => "config error: max_alias_depth must be at least 1"
  | unreadable error => s!"I/O error: {error.message}"

namespace Settings

/-- The value of an entry that is read by `read`, or the default if there is none. -/
def entryOr {α : Type} (entries : Toml.Entries) (key : String) (read : Toml → Option α)
    (default : α) : Option α :=
  match Toml.get? entries key with
  | some value => read value
  | none => some default

/-- A string. -/
def string? : Toml → Option String
  | .string text => some text
  | _ => none

/-- An integer that is not negative. -/
def natural? : Toml → Option Nat
  | .integer (.ofNat n) => some n
  | _ => none

/-- The key under which a date or time stands as an entry of a table. -/
def dateTimeKey : String := "$__toml_private_datetime"

/-- A table of strings. -/
def strings? : Toml → Option (Std.TreeMap String String)
  | .table _ entries => do
      let pairs ← entries.mapM fun (key, value) => (string? value).map (key, ·)
      some (Std.TreeMap.ofList pairs)
  | .dateTime text => some (Std.TreeMap.ofList [(dateTimeKey, text)])
  | _ => none

/-- The settings that a document describes. -/
def ofEntries? (entries : Toml.Entries) : Option Settings := do
  let defaults : Settings := {}
  some {
    user := ← entryOr entries "user" string? defaults.user
    hostname := ← entryOr entries "hostname" string? defaults.hostname
    owner := ← entryOr entries "owner" string? defaults.owner
    maxAliasDepth := ← entryOr entries "max_alias_depth" natural? defaults.maxAliasDepth
    treeDepth := ← entryOr entries "tree_depth" natural? defaults.treeDepth
    env := ← entryOr entries "env" strings? defaults.env
    aliases := ← entryOr entries "aliases" strings? defaults.aliases
    motd := ← entryOr entries "motd" (fun value => (string? value).map some) defaults.motd }

/-- The settings that a text describes. -/
def ofText (text : String) : Except SettingsError Settings :=
  match (Toml.ofText? text).bind ofEntries? with
  | none => .error .malformed
  | some settings =>
      if settings.maxAliasDepth = 0 then .error .noAliasDepth else .ok settings

/-- The settings that a file describes, given what comes of reading its bytes. -/
def ofFile (bytes : Except SourceError ByteArray) : Except SettingsError Settings :=
  match textOfFile bytes with
  | .ok text => ofText text
  | .error error => .error (.unreadable error)

/-- The settings that a file describes, and the defaults where it describes none. -/
def ofFileOrDefault (bytes : Except SourceError ByteArray) : Settings :=
  match ofFile bytes with
  | .ok settings => settings
  | .error _ => {}

end Settings

end PocketShell
