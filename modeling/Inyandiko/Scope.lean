import Inyandiko.Value

/-! Scopes. Frames of bindings form a tree: each frame knows the frames around it, nearest first.
A name belongs to the nearest frame that binds it; assignment changes it there, declaration binds
it in the frame at hand, and constants are never assigned to. -/
namespace Inyandiko

abbrev FrameId := Nat

/-- A frame: its bindings, which of its names are constant, and the frames around it. -/
structure Frame where
  bindings : Table Value := .empty
  consts : List String := []
  outer : List FrameId := []
  deriving Inhabited

structure Scopes where
  frames : Array Frame := #[]
  deriving Inhabited

namespace Scopes

/-- A frame by its number; an unknown number stands for an empty frame. -/
def frame (scopes : Scopes) (id : FrameId) : Frame := scopes.frames[id]?.getD {}

/-- A frame and the frames around it, nearest first. -/
def chain (scopes : Scopes) (id : FrameId) : List FrameId := id :: (scopes.frame id).outer

def push (scopes : Scopes) (bindings : Table Value) (parent : Option FrameId) : FrameId × Scopes :=
  let outer := match parent with
    | some id => scopes.chain id
    | none => []
  (scopes.frames.size, ⟨scopes.frames.push { bindings, outer }⟩)

def child (scopes : Scopes) (id : FrameId) : FrameId × Scopes := scopes.push .empty (some id)

def modify (scopes : Scopes) (id : FrameId) (change : Frame → Frame) : Scopes :=
  ⟨scopes.frames.setIfInBounds id (change (scopes.frame id))⟩

def owner? (scopes : Scopes) (id : FrameId) (name : String) : Option FrameId :=
  (scopes.chain id).find? fun id => (scopes.frame id).bindings.contains name

def binds (scopes : Scopes) (id : FrameId) (name : String) : Bool := (scopes.owner? id name).isSome

def resolve? (scopes : Scopes) (id : FrameId) (name : String) : Option Value :=
  (scopes.owner? id name).bind fun id => (scopes.frame id).bindings.get? name

def resolve (scopes : Scopes) (id : FrameId) (name : String) : Except Halt Value :=
  match scopes.resolve? id name with
  | some value => .ok value
  | none => .error (.crash (.missingKey name))

/-- Binds a name in a frame that does not bind it yet. -/
def declare (scopes : Scopes) (id : FrameId) (name : String) (value : Value) (isConst : Bool) :
    Except Halt Scopes :=
  if (scopes.frame id).bindings.contains name then .error (.ofCause (.redeclared name))
  else .ok (scopes.modify id fun frame =>
    { frame with
      bindings := frame.bindings.insert name value
      consts := if isConst then name :: frame.consts else frame.consts })

/-- Changes the binding of a name where it is, or binds it in the frame at hand. -/
def assign (scopes : Scopes) (id : FrameId) (name : String) (value : Value) : Except Halt Scopes :=
  let owner := (scopes.owner? id name).getD id
  if scopes.binds id name && (scopes.frame owner).consts.contains name then
    .error (.ofCause (.reassigned name))
  else .ok (scopes.modify owner fun frame => { frame with bindings := frame.bindings.insert name value })

def isConst (scopes : Scopes) (id : FrameId) (name : String) : Bool :=
  (scopes.owner? id name).any fun id => (scopes.frame id).consts.contains name

/-- All visible bindings: the outermost names come first, and the nearest binding counts. -/
def snapshot (scopes : Scopes) (id : FrameId) : Table Value :=
  (scopes.chain id).reverse.foldl (fun table id => table.merge (scopes.frame id).bindings) .empty

/-- Removes a name from the frame at hand. -/
def erase (scopes : Scopes) (id : FrameId) (name : String) : Except Halt Scopes :=
  if (scopes.frame id).bindings.contains name then
    .ok (scopes.modify id fun frame =>
      { frame with
        bindings := frame.bindings.erase name
        consts := frame.consts.filter (· != name) })
  else .error (.crash (.missingKey name))

end Scopes

end Inyandiko
