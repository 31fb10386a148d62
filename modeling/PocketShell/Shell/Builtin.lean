import PocketShell.Shell.Builtin.Files
import PocketShell.Shell.Builtin.Filters
import PocketShell.Shell.Builtin.Interaction
import PocketShell.Shell.Builtin.Services

set_option autoImplicit false

/-! # The built-in commands

All commands that a session has unless it is given others.
-/

namespace PocketShell.Builtin

/-- The built-in commands in the order in which they are registered. -/
def commands : List (Command Handler) :=
  fileCommands ++ sessionCommands ++ filterCommands ++ desktopCommands

/-- The registry with all built-in commands and no others. -/
def registry : Registry Handler := ({} : Registry Handler).registerAll commands

end PocketShell.Builtin
