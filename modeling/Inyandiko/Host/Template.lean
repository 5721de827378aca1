import Inyandiko.Expression.Path
import Inyandiko.Value.Convert

/-! Templates: texts with fields in braces, in whose place the texts of arguments are put. A field names an
argument by its position, or takes the next one if it names none, and may go on with attributes after dots.
Keys in brackets, conversions and layouts of fields are not known. -/
namespace Inyandiko.Template

open Text

inductive Part
  | text (text : Chars)
  | field (name : Chars)

def refuse {α : Type} (message : String) : Except Crash α := .error (.badTemplate message)

def fieldName : Chars → Except Crash (Chars × Chars)
  | [] => refuse "expected '\x7d' before end of string"
  | '}' :: rest => .ok ([], rest)
  | '{' :: _ => refuse "unexpected '\x7b' in field name"
  | c :: rest =>
    if c = '[' || c = '!' || c = ':' then refuse "Invalid format specifier"
    else (fieldName rest).map fun (name, rest) => (c :: name, rest)

/-- The parts of a template, up to the first one that is malformed. A brace that is written twice is a text. -/
def parts : (fuel : Nat) → Chars → List (Except Crash Part)
  | 0, _ | _, [] => []
  | fuel + 1, '{' :: '{' :: rest => .ok (.text ['{']) :: parts fuel rest
  | fuel + 1, '}' :: '}' :: rest => .ok (.text ['}']) :: parts fuel rest
  | _, ['{'] => [refuse "Single '\x7b' encountered in format string"]
  | _, '}' :: _ => [refuse "Single '\x7d' encountered in format string"]
  | fuel + 1, '{' :: rest =>
    match fieldName rest with
    | .error crash => [.error crash]
    | .ok (name, rest) => .ok (.field name) :: parts fuel rest
  | fuel + 1, c :: rest => .ok (.text [c]) :: parts fuel rest

/-- How the fields of a template have named their arguments so far. -/
inductive Naming
  | unknown
  | inOrder (next : Nat)
  | byPosition

def position (naming : Naming) (name : Chars) : Except Crash (Nat × Naming) :=
  if name = [] then
    match naming with
    | .unknown => .ok (0, .inOrder 1)
    | .inOrder next => .ok (next, .inOrder (next + 1))
    | .byPosition => refuse "cannot switch from manual field specification to automatic field numbering"
  else if name.all isDecimal then
    match naming with
    | .inOrder _ => refuse "cannot switch from automatic field numbering to manual field specification"
    | _ => (Numeral.readInt (String.ofList name)).map fun position => (position.toNat, .byPosition)
  else .error (.missingKey (String.ofList name))

/-- Takes attributes of a value, private ones as well. -/
def descend (value : Value) : List Chars → HeapM Value
  | [] => return value
  | [] :: _ => liftExcept ((refuse "Empty attribute in format string").mapError Halt.crash)
  | name :: names => do
    match ← attribute? value (String.ofList name) with
    | some found => descend found names
    | none =>
      let kind := (← get).kindName value
      let name := String.ofList name
      throw (.crash (.missingAttribute s!"'{kind}' object has no attribute '{name}'"))

def fill (args : List Value) (naming : Naming) (field : Chars) : HeapM (Chars × Naming) := do
  match splitOn '.' field with
  | [] => return ([], naming)
  | head :: names =>
    let (position, naming) ← liftExcept ((position naming head).mapError Halt.crash)
    match args[position]? with
    | none => throw (.crash (.missingArgument position))
    | some arg =>
      let value ← descend arg names
      let text ← liftExcept ((← get).hostText value)
      return (text.toList, naming)

def render (args : List Value) : Naming → List (Except Crash Part) → HeapM Chars
  | _, [] => return []
  | _, .error crash :: _ => throw (.crash crash)
  | naming, .ok (.text text) :: rest => return text ++ (← render args naming rest)
  | naming, .ok (.field name) :: rest => do
    let (text, naming) ← fill args naming name
    return text ++ (← render args naming rest)

def format (template : String) (args : List Value) : HeapM Value := do
  let text := template.toList
  return .text (String.ofList (← render args .unknown (parts text.length text)))

end Inyandiko.Template
