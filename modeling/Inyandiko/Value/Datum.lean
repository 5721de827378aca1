import Inyandiko.Value.Display

/-! Data: values taken out of the heap as they are at one moment, either as they are or in the
form that documents can hold. -/
namespace Inyandiko

inductive Datum
  | null
  | bool (value : Bool)
  | number (value : Number)
  | text (value : String)
  | list (items : List Datum)
  | tuple (items : List Datum)
  | dict (entries : List (String × Datum))
  | form (entries : List (String × Datum))
  | host (name : String)
  | response (status : Int)
  deriving Repr, Inhabited

namespace Heap

/-- The present content of a value, down to a depth. A value inside itself, that is inside one of
the places of the trail, is left out. -/
def contentsFrom (heap : Heap) : (depth : Nat) → (trail : List Nat) → Value → Datum
  | _, _, .null => .null
  | _, _, .bool b => .bool b
  | _, _, .number n => .number n
  | _, _, .text s => .text s
  | 0, _, .ref _ => .null
  | depth + 1, trail, .ref place =>
    if trail.contains place then .null
    else
      let inner := contentsFrom heap depth (place :: trail)
      match heap.objects[place]? with
      | some (.list items) => .list (items.map inner)
      | some (.tuple items) => .tuple (items.map inner)
      | some (.dict entries) => .dict (entries.entries.map fun entry => (entry.1, inner entry.2))
      | some (.form entries) => .form (entries.entries.map fun entry => (entry.1, inner entry.2))
      | some (.host name _) | some (.function name ..) => .host name
      | some (.response response) => .response response.status
      | some (.method ..) | none => .null

def contents (heap : Heap) (value : Value) : Datum := heap.contentsFrom nestingLimit [] value

/-- The content of a value as far as documents can hold it: tuples are lists, forms are tables,
and whatever else is not plain data is its label. Every value takes room for the step that hands it out,
and an object for a second one, in which its parts are gone through or its label is made. -/
def handOut (heap : Heap) : (room : Nat) → Value → Except Halt Datum
  | 0, _ | 1, .ref _ => .error .tooDeep
  | _ + 1, .null => .ok .null
  | _ + 1, .bool b => .ok (.bool b)
  | _ + 1, .number n => .ok (.number n)
  | _ + 1, .text s => .ok (.text s)
  | room + 2, .ref place =>
    match heap.objects[place]? with
    | some (.list items) | some (.tuple items) => return .list (← items.mapM (handOut heap room))
    | some (.dict entries) | some (.form entries) =>
      return .dict (← entries.entries.mapM fun entry => do
        return (entry.1, ← handOut heap room entry.2))
    | some object => .ok (.text (String.ofList (label object)))
    | none => .ok .null

def handOutTable (heap : Heap) (room : Nat) (table : Table Value) : Except Halt (List (String × Datum)) :=
  table.entries.mapM fun entry => do return (entry.1, ← heap.handOut room entry.2)

/-- The content of a value whose objects are nested within a depth. -/
def jsonable (heap : Heap) (depth : Nat) (value : Value) : Except Halt Datum :=
  heap.handOut (2 * depth + 1) value

end Heap

mutual

/-- The document of a datum. An integer with too many digits cannot be written. -/
def Datum.toJson : Datum → Except Crash Json
  | .null => .ok .null
  | .bool b => .ok (.bool b)
  | .number (.int n) => (Number.writeInt n).map fun _ => .int n
  | .number (.float x) => .ok (.float x)
  | .text s => .ok (.text s)
  | .list items | .tuple items => return .array (← Datum.itemsToJson items)
  | .dict entries | .form entries => return .object (← Datum.entriesToJson entries)
  | .host name => .ok (.text name)
  | .response status => .ok (.int status)

def Datum.itemsToJson : List Datum → Except Crash (List Json)
  | [] => .ok []
  | item :: items => return (← item.toJson) :: (← Datum.itemsToJson items)

def Datum.entriesToJson : List (String × Datum) → Except Crash (List (String × Json))
  | [] => .ok []
  | (key, value) :: entries => return (key, ← value.toJson) :: (← Datum.entriesToJson entries)

end

end Inyandiko
