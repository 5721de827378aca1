import Inyandiko.World

/-! Commands that reach the environment of a script: output, alerts, and the elements, styles and
events of the surface. Arguments are plain expressions. -/
namespace Inyandiko

open Text Source

variable {Code : Type}

/-- The values of a call's arguments, of which there must be as many as asked for. -/
def Call.evaluateArgs (call : Call) (frame : FrameId) (count : Option Nat) : ExecOf Code (List Value) := do
  if let some count := count then
    if call.args.length ≠ count then
      Exec.fail (.argumentCount call.name count call.args.length)
  call.args.mapM (Exec.evaluateIn frame)

def Call.evaluateOne (call : Call) (frame : FrameId) : ExecOf Code Value := do
  return (← call.evaluateArgs frame (some 1)).headD .null

def Call.evaluateTwo (call : Call) (frame : FrameId) : ExecOf Code (Value × Value) := do
  let values ← call.evaluateArgs frame (some 2)
  return (values.headD .null, (values.drop 1).headD .null)

namespace Environment

def names : List String :=
  ["andika", "muburire", "shyiramo", "hindura_ibuju", "fata_agaciro", "shyiraho_agaciro", "tegeka"]

/-- The name of the function that a token stands for: a name that is not bound stands for itself,
anything else for its value. -/
def functionName (token : Token) (frame : FrameId) : ExecOf Code String := do
  let text := trim token
  let name := String.ofList text
  if isName text && !(← Exec.scopes).binds frame name then return name
  Exec.hostText (← Exec.evaluateIn frame text)

def print (call : Call) (frame : FrameId) : ExecOf Code Unit := do
  let values ← call.evaluateArgs frame none
  let parts ← values.mapM Exec.displayText
  Exec.write (" ".intercalate parts)

/-- Shows an alert, or logs it where there is no surface. -/
def alert (call : Call) (surface : Option Nat) (frame : FrameId) : ExecOf Code Unit := do
  let value ← call.evaluateOne frame
  let message ← Exec.displayText value
  match surface with
  | none => Exec.log .warning .environment s!"alert is not available in this environment: {message}"
  | some id => Exec.onSurface id fun surface => .ok (surface.alert message)

/-- Binds a function to an event of an element. Without a way to call back there is no binding. -/
def bind (call : Call) (surface : Nat) (frame : FrameId) (listener : Option (String → Listener)) :
    ExecOf Code Unit := do
  match call.args with
  | [selectorToken, eventToken, handlerToken] =>
    let selector ← Exec.hostText (← Exec.evaluateIn frame selectorToken)
    let event ← Exec.hostText (← Exec.evaluateIn frame eventToken)
    let handler ← functionName handlerToken frame
    match listener with
    | none => throw (.crash (.missingKey "on_event"))
    | some listener =>
      Exec.onSurface surface (·.listen selector event (listener handler))
      Exec.log .debug .environment s!"bound {event} on {selector} to {handler}"
  | args => Exec.fail (.argumentCount "tegeka" 3 args.length)

def onSurface (call : Call) (surface : Nat) (frame : FrameId)
    (listener : Option (String → Listener)) : ExecOf Code Value := do
  match call.name with
  | "shyiramo" | "shyiraho_agaciro" =>
    let (selector, value) ← call.evaluateTwo frame
    let selector ← Exec.hostText selector
    let shown ← Exec.displayText value
    Exec.onSurface surface (·.write selector (.text shown))
    return .null
  | "hindura_ibuju" =>
    let (selector, colour) ← call.evaluateTwo frame
    let selector ← Exec.hostText selector
    let colour ← Exec.hostText colour
    Exec.onSurface surface (·.setStyle selector "color" colour)
    return .null
  | "fata_agaciro" =>
    let selector ← Exec.hostText (← call.evaluateOne frame)
    liftExcept ((← Exec.surface surface).read selector)
  | _ =>
    bind call surface frame listener
    return .null

def perform (call : Call) (surface : Option Nat) (frame : FrameId)
    (listener : Option (String → Listener)) : ExecOf Code Value := do
  match call.name with
  | "andika" =>
    print call frame
    return .null
  | "muburire" =>
    alert call surface frame
    return .null
  | name =>
    match surface with
    | none => Exec.fail (.surfaceRequired name)
    | some surface => onSurface call surface frame listener

/-- Takes charge of the environment's commands; `none` for any other line. -/
def handle (line : Line) (surface : Option Nat) (frame : FrameId)
    (listener : Option (String → Listener)) : ExecOf Code (Option Value) :=
  match Call.parseNamed? line names with
  | some call => some <$> perform call surface frame listener
  | none => return none

end Environment

end Inyandiko
