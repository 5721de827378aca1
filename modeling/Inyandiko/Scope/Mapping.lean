import Inyandiko.Scope
import Inyandiko.Value.Display

/-! Scopes as mappings, which is how the host sees them: reading and setting go through the whole
chain, removal only concerns the frame at hand. -/
namespace Inyandiko.Scopes

/-- Removes a name and gives its visible value, or a default if there is none. -/
def pop (scopes : Scopes) (id : FrameId) (name : String) (default : Option Value) :
    Except Halt (Value × Scopes) :=
  match scopes.resolve? id name, default with
  | some value, _ => do return (value, ← scopes.erase id name)
  | none, some value => .ok (value, scopes)
  | none, none => .error (.crash (.missingKey name))

def popFirst (scopes : Scopes) (id : FrameId) : Except Halt ((String × Value) × Scopes) :=
  match (scopes.snapshot id).entries with
  | [] => .error (.crash .noKey)
  | (name, value) :: _ => do return ((name, value), ← scopes.erase id name)

/-- Removes first names, up to a number of them, until one cannot be removed. -/
def popSome (id : FrameId) : Nat → Scopes → Scopes
  | 0, scopes => scopes
  | count + 1, scopes =>
    match scopes.popFirst id with
    | .ok (_, scopes) => popSome id count scopes
    | .error _ => scopes

def clear (scopes : Scopes) (id : FrameId) : Scopes :=
  popSome id (scopes.frame id).bindings.size scopes

/-- The visible value of a name, which is assigned first if there is none. -/
def setDefault (scopes : Scopes) (id : FrameId) (name : String) (value : Value) :
    Except Halt (Value × Scopes) :=
  match scopes.resolve? id name with
  | some found => .ok (found, scopes)
  | none => do return (value, ← scopes.assign id name value)

/-- Assigns names one after the other; gives what was done before the first failure, too. -/
def update (scopes : Scopes) (id : FrameId) : List (String × Value) → Except Halt Unit × Scopes
  | [] => (.ok (), scopes)
  | (name, value) :: entries =>
    match scopes.assign id name value with
    | .ok scopes => scopes.update id entries
    | .error halt => (.error halt, scopes)

/-- The host's form of a scope: its own bindings, and whether something is visible around it. -/
def describe (scopes : Scopes) (heap : Heap) (id : FrameId) : Except Halt String := do
  let frame := scopes.frame id
  let (bindings, heap) := heap.alloc (.dict frame.bindings)
  let inner ← heap.hostText bindings
  let around := match frame.outer with
    | parent :: _ => if (scopes.snapshot parent).entries.isEmpty then "no" else "yes"
    | [] => "no"
  return s!"Scope({inner}, parent={around})"

end Inyandiko.Scopes
