import Inyandiko.Number.Numeral
import Inyandiko.Statement.Call
import Inyandiko.Value.Display

/-! Paths into values: a name, then attributes after dots and indexes in brackets. A table is
entered by key; any other value by attribute, and attributes that begin with an underscore are
private. -/
namespace Inyandiko

open Text

inductive Step
  | key (name : String)
  | index (position : Int)
  deriving DecidableEq, Repr

namespace Path

def followedBy (step : Step) (more : Except Crash (Option (List Step))) :
    Except Crash (Option (List Step)) :=
  more.map fun steps => steps.map (step :: ·)

/-- Reads steps; `none` when the text has something else in it. Every step takes a character. -/
def steps : (fuel : Nat) → Chars → Except Crash (Option (List Step))
  | _, [] => .ok (some [])
  | 0, _ => .ok none
  | fuel + 1, '.' :: rest =>
    match leadingName? rest with
    | some (name, rest) => followedBy (.key (String.ofList name)) (steps fuel rest)
    | none => .ok none
  | fuel + 1, '[' :: rest =>
    match rest.dropWhile (· ≠ ']') with
    | ']' :: after => do
      let inner := trim (rest.takeWhile (· ≠ ']'))
      if inner.isEmpty || !inner.all isDigit then return none
      else
        let position ← Numeral.readInt (String.ofList inner)
        followedBy (.index position) (steps fuel after)
    | _ => .ok none
  | _, _ => .ok none

def parse (token : Chars) : Except Crash (Option (String × List Step)) :=
  match leadingName? token with
  | some (name, rest) =>
    (steps rest.length rest).map fun found => found.map fun path => (String.ofList name, path)
  | none => .ok none

end Path

def Response.attribute? (response : Response) (name : String) : Option Value :=
  if name = "status_code" then some (.int response.status)
  else if name = "text" then some (.text response.text)
  else if name = "url" then some (.text response.url)
  else if name = "ok" then some (.bool (response.status < 400))
  else none

def Heap.method? (heap : Heap) (value : Value) (name : String) : Option Method :=
  match value, heap.object? value with
  | .text _, _ =>
    if name = "upper" then some .upper else if name = "lower" then some .lower else none
  | _, some (.list _) =>
    if name = "append" then some .append
    else if name = "pop" then some .pop
    else if name = "reverse" then some .reverse
    else none
  | _, some (.response _) => if name = "json" then some .json else none
  | _, _ => none

/-- What the host lends to a value, made anew. -/
def lent? (value : Value) (name : String) : HeapM (Option Value) := do
  let heap ← get
  match heap.runtime.lends value (heap.object? value) name with
  | none => return none
  | some .member => return some (← allocate (.method value (.lent name)))
  | some (.document json) =>
    let (found, heap) := heap.ofJson json
    set heap
    return some found

/-- A member that can be called, made anew, or else what the host lends. -/
def member? (value : Value) (name : String) : HeapM (Option Value) := do
  match (← get).method? value name with
  | some method => return some (← allocate (.method value method))
  | none => lent? value name

def attribute? (value : Value) (name : String) : HeapM (Option Value) := do
  match (← get).object? value with
  | some (.host _ attributes) | some (.function _ _ attributes) => return attributes.get? name
  | some (.response response) =>
    match response.attribute? name with
    | some found => return some found
    | none => member? value name
  | _ => member? value name

def Value.step (value : Value) (step : Step) : HeapM (Option Value) := do
  let heap ← get
  match value, step with
  | .null, _ => return none
  | value, .index position =>
    return (heap.items? value).bind fun items => if position < 0 then none else items[position.toNat]?
  | value, .key name =>
    match heap.entries? value with
    | some entries => return entries.get? name
    | none =>
      if isPrivateName name then throw (.ofCause (.privateAttribute name)) else attribute? value name

def Value.follow (value : Value) : List Step → HeapM (Option Value)
  | [] => return some value
  | step :: steps => do
    match ← value.step step with
    | some next => next.follow steps
    | none => return none

def resolvePath (lookup : String → Option Value) (token : Chars) : HeapM (Option Value) := do
  match Path.parse token with
  | .error crash => throw (.crash crash)
  | .ok none => return none
  | .ok (some (name, steps)) =>
    match lookup name with
    | some value => value.follow steps
    | none => return none

end Inyandiko
