import Inyandiko.Number.Numeral
import Inyandiko.Value

/-! Values as numbers. What is no number and spells none is refused by the name of its kind. -/
namespace Inyandiko.Heap

def kindName (heap : Heap) (value : Value) : String :=
  match value with
  | .null => "NoneType"
  | .bool _ => "bool"
  | .number (.int _) => "int"
  | .number (.float _) => "float"
  | .text _ => "str"
  | .ref _ =>
    match heap.object? value with
    | some (.list _) => "list"
    | some (.tuple _) => "tuple"
    | some (.dict _) => "dict"
    | some (.form _) => "FormData"
    | some (.response _) => "Response"
    | _ => "object"

/-- A value as an integer: a number without its fraction, a truth value, or a numeral. -/
def toInteger (heap : Heap) (value : Value) : Except Crash Int :=
  match value with
  | .number n => n.truncate
  | .bool b => .ok (if b then 1 else 0)
  | .text s => Numeral.readInt s
  | value =>
    let kind := heap.kindName value
    .error (.wrongType
      s!"int() argument must be a string, a bytes-like object or a real number, not '{kind}'")

/-- A value as a floating-point number: a number, a truth value, or a numeral. -/
def toFloat (heap : Heap) (value : Value) : Except Crash Binary64 :=
  match value with
  | .number n => n.toFloat
  | .bool b => .ok (.ofInt (if b then 1 else 0))
  | .text s => Numeral.readFloat s
  | value =>
    let kind := heap.kindName value
    .error (.wrongType s!"float() argument must be a string or a real number, not '{kind}'")

end Inyandiko.Heap
