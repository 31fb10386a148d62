import PocketShell.Text.Blank
import PocketShell.Text.Search
import PocketShell.Text.Lines
import PocketShell.Text.Column
import PocketShell.Text.Numeral
import PocketShell.Path
import PocketShell.Glob
import PocketShell.Calendar
import PocketShell.ByteSize
import PocketShell.Tree.Kind
import PocketShell.Json
import PocketShell.Tree.Record
import PocketShell.Tree.Demo
import PocketShell.FileSystem.Base
import PocketShell.FileSystem.Overlay
import PocketShell.FileSystem.Basic
import PocketShell.FileSystem.Listing
import PocketShell.FileSystem.Traversal
import PocketShell.CommandLine.Line
import PocketShell.Expansion
import PocketShell.Desktop.Basic
import PocketShell.Host
import PocketShell.Session
import PocketShell.Shell.Builtin
import PocketShell.Settings.Reader
import PocketShell.Program
import PocketShell.Main
import PocketShell.Proofs.Outcome
import PocketShell.Proofs.Path.Canonical
import PocketShell.Proofs.Tree.Plain
import PocketShell.Proofs.FileSystem.Numbering
import PocketShell.Proofs.FileSystem.Overlay
import PocketShell.Proofs.FileSystem.Layout
import PocketShell.Proofs.FileSystem.Writing
import PocketShell.Proofs.FileSystem.Operations
import PocketShell.Proofs.FileSystem.Showing
import PocketShell.Proofs.FileSystem.Refinement
import PocketShell.Proofs.FileSystem.Closure
import PocketShell.Proofs.CommandLine.Marking
import PocketShell.Proofs.CommandLine.Words
import PocketShell.Proofs.CommandLine.Splitting
import PocketShell.Proofs.CommandLine.Trimming
import PocketShell.Proofs.CommandLine.Chaining
import PocketShell.Proofs.CommandLine.Quoting
import PocketShell.Proofs.CommandLine.Spelling
import PocketShell.Proofs.CommandLine.Stages
import PocketShell.Proofs.CommandLine.Parts
import PocketShell.Proofs.CommandLine.Shown
import PocketShell.Proofs.Expansion
import PocketShell.Proofs.Shell.Registry
import PocketShell.Proofs.Shell.Effect
import PocketShell.Proofs.Shell.Builtin
import PocketShell.Proofs.Session.Running
import PocketShell.Proofs.FileSystem.Persistence
import PocketShell.Proofs.Session.History
import PocketShell.Proofs.Session.Files
import PocketShell.Proofs.Shell.Takeover
import PocketShell.Proofs.Session.Scrollback
import PocketShell.Proofs.Session.Frame
import PocketShell.Proofs.Session.Aliases
import PocketShell.Proofs.Path.Way
import PocketShell.Proofs.FileSystem.MakeFolder
import PocketShell.Proofs.Session.Cursor
import PocketShell.Proofs.ByteSize
import PocketShell.Proofs.Text.Line
import PocketShell.Proofs.FileSystem.Lines
import PocketShell.Proofs.Shell.Ensures
import PocketShell.Proofs.Shell.Lines
import PocketShell.Proofs.Shell.DesktopLines
import PocketShell.Proofs.Session.Lines
import PocketShell.Proofs.Checked.Basic
import PocketShell.Proofs.Checked.Files
import PocketShell.Proofs.Checked.Calendar
import PocketShell.Proofs.Calendar.Gregorian
import PocketShell.Proofs.Calendar.Reading
import PocketShell.Proofs.Checked.CommandLine
import PocketShell.Proofs.Checked.Expansion
import PocketShell.Proofs.Checked.Desktop
import PocketShell.Proofs.Checked.Session
import PocketShell.Proofs.CommandLine.Display
import PocketShell.Proofs.CommandLine.Faults
import PocketShell.Proofs.FileSystem.Children
import PocketShell.Proofs.FileSystem.Searching
import PocketShell.Proofs.FileSystem.Listing
import PocketShell.Proofs.FileSystem.Drawing
import PocketShell.Proofs.FileSystem.DrawnNodes
import PocketShell.Proofs.FileSystem.Touching
import PocketShell.Proofs.FileSystem.Failing
import PocketShell.Proofs.FileSystem.Views
import PocketShell.Proofs.FileSystem.Commuting
import PocketShell.Proofs.FileSystem.Supplied
import PocketShell.Proofs.Glob.Pieces
import PocketShell.Proofs.Glob.Regex
import PocketShell.Proofs.Glob.Expression
import PocketShell.Proofs.Expansion.References
import PocketShell.Proofs.Expansion.Saturation
import PocketShell.Proofs.Session.Filters
import PocketShell.Proofs.Desktop.InPlace
import PocketShell.Proofs.Desktop.Focus
import PocketShell.Proofs.Session.Resolution
import PocketShell.Proofs.Path.Normal
import PocketShell.Proofs.Path.Relative
import PocketShell.Proofs.FileSystem.WayBack
import PocketShell.Proofs.Desktop.Playlist
import PocketShell.Proofs.FileSystem.Scan
import PocketShell.Proofs.CommandLine.Flags
import PocketShell.Proofs.CommandLine.Passes
import PocketShell.Proofs.Interleaving
import PocketShell.Proofs.Text.Numeral
import PocketShell.Proofs.Session.Selecting
