import PocketShell.Desktop.Error

set_option autoImplicit false

/-! # Windows

The open windows of the applications, one for each application, in the order in which they
were opened, and the application whose window has the focus.
-/

namespace PocketShell

/-- How a window is shown. -/
inductive WindowState where
  | normal
  | minimized
  | maximized
deriving DecidableEq, Repr

/-- The name of a state. -/
def WindowState.name : WindowState → String
  | normal => "normal"
  | minimized => "minimized"
  | maximized => "maximized"

/-- An open window. -/
structure Window where
  app : String
  state : WindowState
deriving DecidableEq, Repr

/-- The open windows. -/
structure Windows where
  /-- The windows in the order in which they were opened. -/
  opened : List Window := []
  /-- The application whose window has the focus. -/
  focused : Option String := none
deriving DecidableEq, Repr

namespace Windows

/-- The window of an application. -/
def window? (ws : Windows) (app : String) : Option Window :=
  ws.opened.find? (·.app == app)

/-- The windows after one that is not open is refused and else `change` is made. -/
def ifOpen (ws : Windows) (app : String) (change : Window → Windows) :
    Except DesktopError Windows :=
  match ws.window? app with
  | some window => .ok (change window)
  | none => .error (.noWindow app)

/-- The windows with the state of one application's window changed. -/
def setState (ws : Windows) (app : String) (state : WindowState) : Windows :=
  { ws with opened := ws.opened.map fun window =>
      if window.app = app then { window with state } else window }

/-- Opens a window for an application that has none, and gives its window the focus. -/
def «open» (ws : Windows) (app : String) : Windows :=
  { opened :=
      if (ws.window? app).isSome then ws.opened
      else ws.opened ++ [{ app, state := .normal }]
    focused := some app }

/-- Closes the window of an application. If it had the focus, the window opened last of
those that are left receives it. -/
def close (ws : Windows) (app : String) : Except DesktopError Windows :=
  ws.ifOpen app fun _ =>
    let left := ws.opened.filter (·.app != app)
    { opened := left
      focused :=
        if ws.focused = some app then left.getLast?.map Window.app else ws.focused }

/-- Minimizes the window of an application, which loses the focus. -/
def minimize (ws : Windows) (app : String) : Except DesktopError Windows :=
  ws.ifOpen app fun _ =>
    { ws.setState app .minimized with
      focused := if ws.focused = some app then none else ws.focused }

/-- Maximizes the window of an application, which receives the focus. -/
def maximize (ws : Windows) (app : String) : Except DesktopError Windows :=
  ws.ifOpen app fun _ => { ws.setState app .maximized with focused := some app }

/-- Gives the focus to the window of an application. A minimized window is shown again. -/
def focus (ws : Windows) (app : String) : Except DesktopError Windows :=
  ws.ifOpen app fun window =>
    { (if window.state = .minimized then ws.setState app .normal else ws) with
      focused := some app }

/-- Whether a window has the focus. -/
def hasFocus (ws : Windows) (window : Window) : Bool := ws.focused == some window.app

end Windows

end PocketShell
