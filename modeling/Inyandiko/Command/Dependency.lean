import Inyandiko.Command.Network
import Inyandiko.Text.Upper

/-! Dependencies: what the host lends to scripts. Tables give their members by key, other values
by attribute; private attributes are refused. -/
namespace Inyandiko

open Text

namespace Method

def refuse {α : Type} (message : String) : HeapM α := throw (.crash (.wrongType message))

def appendItem (place : Nat) (items : List Value) : List Value → HeapM Value
  | [item] => do
    modify (·.set place (.list (items ++ [item])))
    return .null
  | args => refuse s!"list.append() takes exactly one argument ({args.length} given)"

/-- Takes an item out of a list; a position below zero counts from the end. -/
def popAt (place : Nat) (items : List Value) (position : Int) : HeapM Value := do
  if items.isEmpty then throw (.crash .popEmpty)
  let index := if position < 0 then position + items.length else position
  match if index < 0 then none else items[index.toNat]? with
  | some item =>
    modify (·.set place (.list (items.eraseIdx index.toNat)))
    return item
  | none => throw (.crash .popOutOfRange)

def popItem (place : Nat) (items : List Value) : List Value → HeapM Value
  | [] => popAt place items (-1)
  | [.number (.int position)] => popAt place items position
  | [.bool b] => popAt place items (if b then 1 else 0)
  | [position] => do
    let kind := (← get).kindName position
    refuse s!"'{kind}' object cannot be interpreted as an integer"
  | args => refuse s!"pop expected at most 1 argument, got {args.length}"

def reverseItems (place : Nat) (items : List Value) : List Value → HeapM Value
  | [] => do
    modify (·.set place (.list items.reverse))
    return .null
  | args => refuse s!"list.reverse() takes no arguments ({args.length} given)"

def callOnList (method : Method) (place : Nat) (items : List Value) (args : List Value) : HeapM Value :=
  match method with
  | .append => appendItem place items args
  | .pop => popItem place items args
  | .reverse => reverseItems place items args
  | _ => return .null

/-- A member of a text, called. Only letters of the basic alphabet are lowered. -/
def callOnText (method : Method) (text : String) (args : List Value) : HeapM Value :=
  match method, args with
  | .upper, [] => return .text (String.ofList (inCapitals text.toList))
  | .lower, [] => return .text text.toLower
  | .upper, args => refuse s!"str.upper() takes no arguments ({args.length} given)"
  | _, args => refuse s!"str.lower() takes no arguments ({args.length} given)"

def call (method : Method) (receiver : Value) (args : List Value) : HeapM Value := do
  match receiver, (← get).object? receiver with
  | .text text, _ => method.callOnText text args
  | .ref place, some (.list items) => method.callOnList place items args
  | _, some (.response response) =>
    if args.isEmpty then response.document
    else refuse s!"Response.json() takes 1 positional argument but {args.length + 1} were given"
  | _, _ => return .null

end Method

def Host.callValue (host : Host) (target : Value) (args : List Value) : HeapM Value := do
  match (← get).object? target with
  | some (.function name owner _) => host.call (.function name owner) args
  | some (.method receiver (.lent name)) => host.call (.member name receiver) args
  | some (.method receiver method) => method.call receiver args
  | _ => throw (.crash (.wrongType "object is not callable"))

namespace Dependency

/-- A text that names a dependency stands for it. -/
def target (raw : Value) (dependencies : Table Value) : Value :=
  match raw with
  | .text name => (dependencies.get? name).getD raw
  | _ => raw

def method? (target : Value) (name : String) : HeapM (Option Value) := do
  let heap ← get
  if target = .null then return none
  let member ←
    match heap.entries? target with
    | some entries => pure (entries.get? name)
    | none =>
      if isPrivateName name then throw (.ofCause (.privateMember name)) else attribute? target name
  let heap ← get
  return member.filter heap.isCallable

def member? (target : Value) (name : String) : HeapM (Option Value) := do
  let heap ← get
  match heap.entries? target with
  | some entries => return entries.get? name
  | none =>
    if target = .null || isPrivateName name then return none else attribute? target name

end Dependency

end Inyandiko
