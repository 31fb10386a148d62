import Std.Data.TreeMap

set_option autoImplicit false

/-! # Settings of a session

Every setting has a default, so that a session works without any settings given.
-/

namespace PocketShell

/-- The settings of a session. -/
structure Settings where
  /-- The user that the prompt names. -/
  user : String := "guest"
  /-- The host that the prompt names. -/
  hostname : String := "folio"
  /-- The owner and group that listings show. -/
  owner : String := "guest"
  /-- How many times the first word of a line is replaced as an alias at most. -/
  maxAliasDepth : Nat := 8
  /-- How deep a tree is drawn unless a depth is given. -/
  treeDepth : Nat := 3
  /-- Variables that are set at the start of a session. -/
  env : Std.TreeMap String String := ∅
  /-- Aliases that are defined at the start of a session. -/
  aliases : Std.TreeMap String String := ∅
  /-- What is shown when a session opens. -/
  motd : Option String := none

end PocketShell
