import Inyandiko.Fault
import Inyandiko.Json
import Inyandiko.Number
import Inyandiko.Table

/-! Values of scripts. Lists, tables and the objects of the host live in a heap and are held by
reference: two references are the same value exactly when they lead to the same place. -/
namespace Inyandiko

/-- A value: plain data, or a reference into the heap. -/
inductive Value
  | null
  | bool (value : Bool)
  | number (value : Number)
  | text (value : String)
  | ref (place : Nat)
  deriving DecidableEq, Repr, Inhabited

/-- The members that can be called: those of lists, texts and network answers that are known here, and any
other that the host lends to a value. -/
inductive Method
  | append
  | pop
  | reverse
  | upper
  | lower
  | json
  | lent (name : String)
  deriving DecidableEq, Repr

structure Response where
  status : Int
  text : String
  contentType : String
  url : String
  deriving DecidableEq, Repr

inductive Object
  | list (items : List Value)
  | tuple (items : List Value)
  | dict (entries : Table Value)
  /-- The fields of a form, which are sent as such. -/
  | form (entries : Table Value)
  | host (name : String) (attributes : Table Value)
  /-- A function of the host, the host object it belongs to, if any, and attributes of its own. -/
  | function (name : String) (owner : Option Nat) (attributes : Table Value := .empty)
  | response (response : Response)
  | method (receiver : Value) (method : Method)

/-- What of the host is called: a function with the object it belongs to, or a member that it lends to a value. -/
inductive Callee
  | function (name : String) (owner : Option Nat)
  | member (name : String) (receiver : Value)
  deriving DecidableEq, Repr

inductive Loan
  | member
  | document (json : Json)

/-- How deeply expressions and the contents of values may be nested. -/
def nestingLimit : Nat := 500

/-- What the host gives to all values: how deeply documents may be nested that are read, the room for values that
are printed, and the attributes of values besides those known here. -/
structure Runtime where
  reading : Nat := 970
  printing : Nat := 970
  lends : Value → Option Object → String → Option Loan := fun _ _ _ => none
  deriving Inhabited

structure Heap where
  objects : Array Object := #[]
  runtime : Runtime := {}
  deriving Inhabited

abbrev HeapM := StateT Heap (Except Halt)

namespace Heap

def object? (heap : Heap) : Value → Option Object
  | .ref place => heap.objects[place]?
  | _ => none

/-- Adds an object; its place is the number of objects before it. -/
def alloc (heap : Heap) (object : Object) : Value × Heap :=
  (.ref heap.objects.size, { heap with objects := heap.objects.push object })

def set (heap : Heap) (place : Nat) (object : Object) : Heap :=
  { heap with objects := heap.objects.setIfInBounds place object }

def items? (heap : Heap) (value : Value) : Option (List Value) :=
  match heap.object? value with
  | some (.list items) | some (.tuple items) => some items
  | _ => none

def entries? (heap : Heap) (value : Value) : Option (Table Value) :=
  match heap.object? value with
  | some (.dict entries) | some (.form entries) => some entries
  | _ => none

def isCallable (heap : Heap) (value : Value) : Bool :=
  match heap.object? value with
  | some (.function ..) | some (.method ..) => true
  | _ => false

/-- Whether a value counts as nothing for the host: null, false, zero, and what is empty. -/
def isVoid (heap : Heap) (value : Value) : Bool :=
  match value with
  | .null => true
  | .bool b => !b
  | .number n => n.isZero
  | .text s => s.isEmpty
  | .ref _ =>
    (heap.items? value).any List.isEmpty || (heap.entries? value).any (·.entries.isEmpty)

end Heap

def allocate (object : Object) : HeapM Value := do
  let (value, heap) := (← get).alloc object
  set heap
  return value

namespace Value

def int (n : Int) : Value := .number (.int n)

/-- Whether a value counts as true in conditions. Zero, what is not a number, the empty text,
null and false do not. -/
def truthy : Value → Bool
  | .null => false
  | .bool b => b
  | .number (.int n) => n ≠ 0
  | .number (.float x) => !x.isZero && !x.isNaN
  | .text s => s ≠ ""
  | .ref _ => true

/-- Equality without conversion: numbers by value, references by place. -/
def equals : Value → Value → Bool
  | .number x, .number y => x.equals y
  | x, y => x = y

end Value

end Inyandiko
