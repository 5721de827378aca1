import Inyandiko.Json.Writer
import Inyandiko.Value

/-! The texts of values: the displayed form, which output and concatenation use; documents, which
tables are displayed as; and the host's own form, with texts inside containers quoted. Values may
contain themselves, so every walk has a depth, and the host's form and documents know the
containers they are inside of. -/
namespace Inyandiko

open Text

namespace Heap

/-- The host's name for what is neither plain data nor a container. -/
def label : Object → Chars
  | .host name _ | .function name _ _ => "<host ".toList ++ name.toList ++ ['>']
  | .response response => "<Response [".toList ++ Json.writeInt response.status ++ "]>".toList
  | _ => "<built-in method>".toList

/-- The host's form of a value inside the containers at `trail`, with texts quoted. -/
def inspect (heap : Heap) : (depth : Nat) → (trail : List Nat) → Value → Except Halt Chars
  | _, _, .null => .ok "None".toList
  | _, _, .bool b => .ok (if b then "True".toList else "False".toList)
  | _, _, .number n => n.write.mapError .crash
  | _, _, .text s => .ok (quoted s.toList)
  | 0, _, .ref _ => .error .tooDeep
  | depth + 1, trail, .ref place =>
    match heap.objects[place]? with
    | some (.list items) =>
      if trail.contains place then .ok "[...]".toList
      else do
        let parts ← items.mapM (inspect heap depth (place :: trail))
        return '[' :: List.intercalate [',', ' '] parts ++ [']']
    | some (.tuple items) =>
      if trail.contains place then .ok "(...)".toList
      else do
        let parts ← items.mapM (inspect heap depth (place :: trail))
        let comma := if parts.length = 1 then [','] else []
        return '(' :: List.intercalate [',', ' '] parts ++ comma ++ [')']
    | some (.dict entries) | some (.form entries) =>
      if trail.contains place then .ok ['{', '.', '.', '.', '}']
      else do
        let parts ← entries.entries.mapM fun entry => do
          let part ← inspect heap depth (place :: trail) entry.2
          return quoted entry.1.toList ++ ':' :: ' ' :: part
        return '{' :: List.intercalate [',', ' '] parts ++ ['}']
    | some object => .ok (label object)
    | none => .ok []

/-- The host's form of a value; a text stands for itself. -/
def hostText (heap : Heap) : Value → Except Halt String
  | .text s => .ok s
  | value => (heap.inspect heap.runtime.printing [] value).map String.ofList

/-- The document of a value inside the containers at `trail`. What is neither plain data nor a
container is written as its label. -/
def document (heap : Heap) : (depth : Nat) → (trail : List Nat) → Value → Except Halt Json
  | _, _, .null => .ok .null
  | _, _, .bool b => .ok (.bool b)
  | _, _, .number (.int n) =>
    match Number.writeInt n with
    | .ok _ => .ok (.int n)
    | .error crash => .error (.crash crash)
  | _, _, .number (.float x) => .ok (.float x)
  | _, _, .text s => .ok (.text s)
  | 0, _, .ref _ => .error .tooDeep
  | depth + 1, trail, .ref place =>
    match heap.objects[place]? with
    | some (.list items) | some (.tuple items) =>
      if trail.contains place then .error (.crash .circular)
      else return .array (← items.mapM (document heap depth (place :: trail)))
    | some (.dict entries) | some (.form entries) =>
      if trail.contains place then .error (.crash .circular)
      else return .object (← entries.entries.mapM fun entry => do
        return (entry.1, ← document heap depth (place :: trail) entry.2))
    | some object => .ok (.text (String.ofList (label object)))
    | none => .ok .null

/-- The displayed form of a floating-point number: integral ones without a fraction. -/
def displayFloat (x : Binary64) : Chars :=
  match x.toInt? with
  | some n => Json.writeInt n
  | none => Json.writeFloat x

/-- The displayed form of a value. The items of a list stand between commas, null items as
nothing, and a list takes as much room as three containers in a document; tables are documents. -/
def display (heap : Heap) : (room : Nat) → Value → Except Halt Chars
  | _, .null => .ok "null".toList
  | _, .bool b => .ok (if b then "true".toList else "false".toList)
  | _, .number (.int n) => (Number.writeInt n).mapError .crash
  | _, .number (.float x) => .ok (displayFloat x)
  | _, .text s => .ok s.toList
  | room, .ref place =>
    match heap.objects[place]? with
    | some (.list items) | some (.tuple items) =>
      match room with
      | room + 3 => do
        let parts ← items.mapM fun item =>
          if item = .null then .ok [] else display heap room item
        return List.intercalate [','] parts
      | _ => .error .tooDeep
    | some (.dict _) | some (.form _) => do
      return (← document heap room [] (.ref place)).write
    | some object => .ok (label object)
    | none => .ok []

def displayText (heap : Heap) (value : Value) : Except Halt String :=
  (heap.display heap.runtime.printing value).map String.ofList

mutual

/-- Makes the value of a document. Of members with one name the last counts. -/
def ofJson (heap : Heap) : Json → Value × Heap
  | .null => (.null, heap)
  | .bool b => (.bool b, heap)
  | .int n => (.int n, heap)
  | .float x => (.number (.float x), heap)
  | .text s => (.text s, heap)
  | .array items =>
    let (values, heap) := ofItems heap items
    heap.alloc (.list values)
  | .object members =>
    let (entries, heap) := ofMembers heap members
    heap.alloc (.dict (.ofList entries))

def ofItems (heap : Heap) : List Json → List Value × Heap
  | [] => ([], heap)
  | item :: items =>
    let (value, heap) := ofJson heap item
    let (values, heap) := ofItems heap items
    (value :: values, heap)

def ofMembers (heap : Heap) : List (String × Json) → List (String × Value) × Heap
  | [] => ([], heap)
  | (name, member) :: members =>
    let (value, heap) := ofJson heap member
    let (entries, heap) := ofMembers heap members
    ((name, value) :: entries, heap)

end

end Heap

end Inyandiko
