import Std.Data.TreeMap
import PocketShell.Desktop.Error
import PocketShell.Text.Search

set_option autoImplicit false

/-! # The registry of commands

A command has one proper name and any number of other names, its aliases. The registry finds
a command by any of its names and lists the commands by name and by category.

Registering a command replaces the one of the same name, together with all names that led
to that one. An alias that is the proper name of another command is left out; an alias that
is only an alias of another command is taken over. Every registration has its own serial
number, so that two registrations with equal descriptions can be told apart.

What a command does when it runs is not the concern of the registry: it keeps an `action`
of any type with each command. The catalogue of a registry is the same registry without
actions.
-/

namespace PocketShell

/-- A flag of a command with a word of help. -/
structure FlagHelp where
  name : String
  help : String
deriving DecidableEq, Repr

/-- What is known about a command without running it. -/
structure Description where
  name : String
  /-- What the command is for, in one line. -/
  summary : String := ""
  /-- How the command is written. -/
  usage : String := ""
  category : String := "general"
  aliases : List String := []
  flags : List FlagHelp := []
  examples : List String := []
  /-- Whether the command is refused without arguments. -/
  requiresArgs : Bool := false
  /-- The services that the command needs. -/
  needs : List Capability := []
deriving DecidableEq, Repr

/-- A command with what it does when it runs. -/
structure Command (α : Type) where
  description : Description
  action : α

/-- A command in the registry. -/
structure Registered (α : Type) where
  /-- The number of commands registered before. -/
  serial : Nat
  command : Command α

namespace Registered

variable {α : Type}

/-- What is known about the command. -/
def description (entry : Registered α) : Description := entry.command.description

/-- The proper name of the command. -/
def name (entry : Registered α) : String := entry.description.name

/-- Whether two entries come from one registration. -/
def same (a b : Registered α) : Bool := a.serial == b.serial

/-- The entry without its action. -/
def described (entry : Registered α) : Registered Unit :=
  { serial := entry.serial, command := { description := entry.description, action := () } }

end Registered

/-- The registry of commands. -/
structure Registry (α : Type) where
  /-- The number of commands registered so far. -/
  serial : Nat := 0
  /-- The command that each name leads to. -/
  lookup : Std.TreeMap String (Registered α) := ∅
  /-- The command with each proper name. -/
  proper : Std.TreeMap String (Registered α) := ∅
  /-- The proper names in each category, in the order of registration. -/
  categories : Std.TreeMap String (List String) := ∅

namespace Registry

variable {α : Type}

/-! ## Registering -/

/-- The names in a category after `name` has left it. A category without names is
dropped. -/
def leaveCategory (categories : Std.TreeMap String (List String)) (category name : String) :
    Std.TreeMap String (List String) :=
  match categories[category]? with
  | none => categories
  | some names =>
      match names.filter (· != name) with
      | [] => categories.erase category
      | left => categories.insert category left

/-- The registry without the command of a proper name and without all names that lead to
it. -/
def remove (registry : Registry α) (name : String) : Registry α :=
  match registry.proper[name]? with
  | none => registry
  | some old =>
      { registry with
        proper := registry.proper.erase name
        lookup := registry.lookup.filter fun _ entry => !entry.same old
        categories := leaveCategory registry.categories old.description.category name }

/-- Lets those of the given aliases lead to a command that are no proper names. -/
def addAliases (registry : Registry α) (entry : Registered α) (aliases : List String) :
    Registry α :=
  { registry with
    lookup := aliases.foldl
      (fun lookup name =>
        if registry.proper.contains name then lookup else lookup.insert name entry)
      registry.lookup }

/-- Enters a command under its proper name. -/
def addProper (registry : Registry α) (entry : Registered α) : Registry α :=
  let category := entry.description.category
  { serial := registry.serial + 1
    lookup := registry.lookup.insert entry.name entry
    proper := registry.proper.insert entry.name entry
    categories := registry.categories.insert category
      (registry.categories.getD category [] ++ [entry.name]) }

/-- The registry with one more command. -/
def register (registry : Registry α) (command : Command α) : Registry α :=
  let entry : Registered α := { serial := registry.serial, command }
  ((registry.remove entry.name).addAliases entry entry.description.aliases).addProper entry

/-- The registry with several more commands. -/
def registerAll (registry : Registry α) (commands : List (Command α)) : Registry α :=
  commands.foldl register registry

/-! ## Finding -/

/-- The command that a name leads to. -/
def find? (registry : Registry α) (name : String) : Option (Registered α) :=
  registry.lookup[name]?

/-- Whether a name leads to a command. -/
def contains (registry : Registry α) (name : String) : Bool := registry.lookup.contains name

/-- Whether a name leads to a command without being its proper name. -/
def isAlias (registry : Registry α) (name : String) : Bool :=
  registry.lookup.contains name && !registry.proper.contains name

/-- The commands, in the order of their proper names. -/
def all (registry : Registry α) : List (Registered α) := registry.proper.values

/-- The commands of a category, in the order of their proper names. -/
def inCategory (registry : Registry α) (category : String) : List (Registered α) :=
  ((registry.categories.getD category []).filterMap fun name =>
    registry.proper[name]?).mergeSort fun a b => a.name ≤ b.name

/-- The names of the categories, in order. -/
def categoryNames (registry : Registry α) : List String := registry.categories.keys

/-- The proper names that begin with `start`, in order. -/
def completions (registry : Registry α) (start : String) : List String :=
  registry.proper.keys.filter (Text.startsWith · start)

/-- The number of commands. -/
def size (registry : Registry α) : Nat := registry.proper.size

/-- The registry without actions. -/
def catalogue (registry : Registry α) : Registry Unit :=
  { serial := registry.serial
    lookup := registry.lookup.map fun _ entry => entry.described
    proper := registry.proper.map fun _ entry => entry.described
    categories := registry.categories }

end Registry

end PocketShell
