import Inyandiko.Value

/-! The surface: the elements of a user interface by selector, with styles, alerts and listeners.
Elements are never added or removed by scripts; styles and listeners belong to elements. -/
namespace Inyandiko

/-- A function of a script that waits for an event, and the run it belongs to. -/
structure Listener where
  context : Nat
  function : String
  deriving DecidableEq, Repr

structure Surface where
  elements : Table Value := .empty
  styles : Table (Table String) := .empty
  alerts : Array String := #[]
  /-- The listeners by selector and event, in the order of their binding. -/
  listeners : List ((String × String) × List Listener) := []
  deriving Inhabited

namespace Surface

def read (surface : Surface) (selector : String) : Except Halt Value :=
  match surface.elements.get? selector with
  | some value => .ok value
  | none => .error (.ofCause (.missingElement selector))

def write (surface : Surface) (selector : String) (value : Value) : Except Halt Surface := do
  let _ ← surface.read selector
  return { surface with elements := surface.elements.insert selector value }

def setStyle (surface : Surface) (selector property value : String) : Except Halt Surface := do
  let _ ← surface.read selector
  let styles := (surface.styles.get? selector).getD .empty
  return { surface with styles := surface.styles.insert selector (styles.insert property value) }

def alert (surface : Surface) (message : String) : Surface :=
  { surface with alerts := surface.alerts.push message }

/-- Adds a listener behind those of its selector and event. -/
def addListener (key : String × String) (listener : Listener) :
    List ((String × String) × List Listener) → List ((String × String) × List Listener)
  | [] => [(key, [listener])]
  | (other, listeners) :: rest =>
    if other = key then (other, listeners ++ [listener]) :: rest
    else (other, listeners) :: addListener key listener rest

def listen (surface : Surface) (selector event : String) (listener : Listener) :
    Except Halt Surface := do
  let _ ← surface.read selector
  return { surface with listeners := addListener (selector, event) listener surface.listeners }

def listenersOf (surface : Surface) (selector event : String) : List Listener :=
  (surface.listeners.lookup (selector, event)).getD []

end Surface

end Inyandiko
