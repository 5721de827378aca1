import Inyandiko.Command.Dependency
import Inyandiko.Command.Validation
import Inyandiko.Statement

/-! The machine that runs scripts, one level of nesting at a time. Whatever a statement, a command
or a token has inside it is left to the machine of the level below; the machine of level zero does
nothing but report that the nesting is too deep. -/
namespace Inyandiko

open Text Source

structure RunOptions where
  vars : Table Value := .empty
  dependencies : Table Value := .empty
  commands : Table String := .empty
  stopOnInvalid : Bool := true
  /-- Whether dependencies are visible as variables, too. -/
  injectDependencies : Bool := false
  hooks : Hooks := {}
  surface : Option Nat := none

/-- How code, tokens and whole scripts are run, and the code that lines stand for. A block gives
the value of the return that ended it, if one did. -/
structure Machine (Code : Type := List Line) where
  code : List Line → Code
  block : Code → FrameId → ContextId → ExecOf Code (Option Value)
  token : Token → FrameId → ContextId → ExecOf Code Value
  run : String → RunOptions → ExecOf Code Record

namespace Machine

variable {Code : Type}

/-- The machine that has no room for anything. -/
def exhausted (code : List Line → Code) : Machine Code where
  code
  block _ _ _ := throw .tooDeep
  token _ _ _ := throw .tooDeep
  run _ _ := throw .tooDeep

def declareAll (frame : FrameId) : List (String × Value) → ExecOf Code Unit
  | [] => return
  | (name, value) :: entries => do
    Exec.onScopes (·.declare frame name value false)
    declareAll frame entries

/-- Counts a call under way while it runs, however it ends. -/
def counted {α : Type} (context : ContextId) (call : ExecOf Code α) : ExecOf Code α := do
  Exec.modifyContext context fun run => { run with callDepth := run.callDepth + 1 }
  let outcome ← Exec.attempt call
  Exec.modifyContext context fun run => { run with callDepth := run.callDepth - 1 }
  liftExcept outcome

/-- Runs the body of a function in a frame of its own, where its parameters are declared. -/
def runBody (machine : Machine Code) (function : FunctionDef Code) (args : List Value)
    (context : ContextId) : ExecOf Code Value := do
  let frame ← Exec.childFrame function.frame
  declareAll frame (function.params.zip args)
  let signal ← counted context (machine.block function.body frame context)
  return signal.getD .null

/-- Runs a function whose arguments are known, if their number is right and calls are not nested
too deeply. -/
def enter (machine : Machine Code) (setup : Setup) (name : String) (function : FunctionDef Code)
    (args : List Value) (context : ContextId) : ExecOf Code Value := do
  let run ← Exec.context context
  if args.length ≠ function.params.length then
    Exec.fail (.functionArguments name function.params.length args.length)
  else if setup.maxCallDepth ≤ run.callDepth then Exec.fail .callDepth
  else machine.runBody function args context

def callFunction (machine : Machine Code) (setup : Setup) (name : String) (args : ExecOf Code (List Value))
    (context : ContextId) : ExecOf Code Value := do
  match (← Exec.context context).functions.get? name with
  | none => Exec.fail (.unknownFunction name)
  | some function => machine.enter setup name function (← args) context

def tokens (machine : Machine Code) (args : List Token) (frame : FrameId) (context : ContextId) :
    ExecOf Code (List Value) :=
  args.mapM fun token => machine.token token frame context

def notify (hook : Option HookMode) (slot : String) (event : Event) : ExecOf Code Unit :=
  match hook with
  | none => return
  | some mode => do
    Exec.record event
    if mode = .failing then throw (.crash (.hostFailure s!"{slot} hook failed"))

def notifyStart (name : Option String) (line : Line) (context : ContextId) : ExecOf Code Unit := do
  match name with
  | none => return
  | some name =>
    notify (← Exec.context context).hooks.start "start" (.start name (String.ofList line))

def notifyFinish (name : Option String) (line : Line) (value : Value) (context : ContextId) :
    ExecOf Code Unit := do
  match name with
  | none => return
  | some name =>
    let datum := (← Exec.heap).contents value
    notify (← Exec.context context).hooks.finish "end" (.finish name (String.ofList line) datum)

def service (machine : Machine Code) (call : Call) (frame : FrameId) (context : ContextId) : ExecOf Code Value := do
  match call.args with
  | [token] =>
    let name ← Exec.hostText (← machine.token token frame context)
    match (← Exec.context context).dependencies.get? name with
    | some value => return value
    | none => Exec.fail (.missingDependency name)
  | _ => Exec.fail .serviceArgument

def callDependency (machine : Machine Code) (setup : Setup) (call : Call) (frame : FrameId)
    (context : ContextId) : ExecOf Code Value := do
  match call.args with
  | [] => Exec.fail (.missingTarget call.name)
  | first :: args =>
    let raw ← machine.token first frame context
    let target := Dependency.target raw (← Exec.context context).dependencies
    match args with
    | [] =>
      if (← Exec.heap).isCallable target then Exec.onHeap (setup.host.callValue target [])
      else return target
    | second :: rest =>
      let head ← machine.token second frame context
      let values ← machine.tokens rest frame context
      let method ←
        match head with
        | .text name => Exec.onHeap (Dependency.method? target name)
        | _ => pure none
      match method with
      | some method => Exec.onHeap (setup.host.callValue method values)
      | none =>
        if (← Exec.heap).isCallable target then Exec.onHeap (setup.host.callValue target (head :: values))
        else Exec.fail (.uncallableTarget call.name)

def newSurface (elements : Table Value) : ExecOf Code Nat :=
  modifyGet fun world =>
    (world.surfaces.size, { world with surfaces := world.surfaces.push { elements } })

def nestedOptions (overrides : Overrides) (frame : FrameId) (context : ContextId) : ExecOf Code RunOptions := do
  let run ← Exec.context context
  let surface ←
    match overrides.elements with
    | some elements => some <$> newSurface elements
    | none => pure run.surface
  return {
    vars := ((← Exec.scopes).snapshot frame).merge overrides.vars
    dependencies := run.dependencies.merge overrides.dependencies
    commands := run.commands.merge overrides.commands
    stopOnInvalid := overrides.stop.getD run.stopOnInvalid
    surface }

def perform (machine : Machine Code) (frame : FrameId) (context : ContextId) : Action → ExecOf Code Value
  | .done value => return value
  | .fail halt => throw halt
  | .examine next => do machine.perform frame context (next (← Exec.heap))
  | .make object next => do machine.perform frame context (next (← Exec.onHeap (allocate object)))
  | .visible next => do machine.perform frame context (next ((← Exec.scopes).snapshot frame))
  | .assign name value next => do
    Exec.onScopes (·.assign frame name value)
    machine.perform frame context next
  | .erase name next => do
    Exec.onScopes (·.erase frame name)
    machine.perform frame context next
  | .run source overrides next => do
    let record ← machine.run source (← nestedOptions overrides frame context)
    machine.perform frame context (next record)

def custom (machine : Machine Code) (setup : Setup) (handler : String) (call : Call) (line : Line)
    (frame : FrameId) (context : ContextId) : ExecOf Code Value := do
  let args ← machine.tokens call.args frame context
  let dependencies := (← Exec.context context).dependencies
  machine.perform frame context (setup.host.handler handler
    { args, dependencies, line := String.ofList line, command := call.name })

def generic (machine : Machine Code) (setup : Setup) (call : Call) (line : Line) (frame : FrameId)
    (context : ContextId) : ExecOf Code Value := do
  let run ← Exec.context context
  if call.name = "injiza" then machine.service call frame context
  else if call.name = "koresha" || call.name = "hamagara" then
    machine.callDependency setup call frame context
  else match run.commands.get? call.name with
    | some handler => machine.custom setup handler call line frame context
    | none =>
      if run.functions.contains call.name then
        machine.callFunction setup call.name (machine.tokens call.args frame context) context
      else Exec.fail (.unknownCommand call.name)

/-- What a family of commands makes of a line: the built-in one, or the one in its place. -/
def consult (setup : Setup) (replacement : Option Family) (line : Line) (frame : FrameId)
    (own : ExecOf Code (Option Value)) : ExecOf Code (Option Value) := do
  match replacement with
  | some family => Exec.onHeap (setup.host.family family line ((← Exec.scopes).snapshot frame))
  | none => own

/-- Ends the run at a validation that found a problem, if the run is to stop then. -/
def stopIfInvalid (value : Value) (line : Line) (context : ContextId) : ExecOf Code Unit := do
  if !(← Exec.heap).isVoid value && (← Exec.context context).stopOnInvalid then
    throw (.invalid (String.ofList line))

/-- The value of a line by the families of commands, in their order: environment, validation and
network. -/
def byFamilies (setup : Setup) (line : Line) (frame : FrameId) (context : ContextId) :
    ExecOf Code (Option Value) := do
  let surface := (← Exec.context context).surface
  let listener := fun handler => ({ context, function := handler } : Listener)
  match ← consult setup setup.environment line frame (Environment.handle line surface frame (some listener)) with
  | some value => return some value
  | none =>
    match ← consult setup setup.validation line frame (Validation.handle line surface frame) with
    | some value =>
      stopIfInvalid value line context
      return some value
    | none => consult setup setup.network line frame (Network.handle setup line surface frame)

def runCall (machine : Machine Code) (setup : Setup) (call : Option Call) (line : Line) (frame : FrameId)
    (context : ContextId) : ExecOf Code Value := do
  let name := call.map (·.name)
  notifyStart name line context
  let value ←
    match ← byFamilies setup line frame context with
    | some value => pure value
    | none =>
      match call with
      | none => throw (.fault ⟨.badStatement (String.ofList line), some (String.ofList line)⟩)
      | some call => machine.generic setup call line frame context
  notifyFinish name line value context
  return value

def command (machine : Machine Code) (setup : Setup) (line : Line) (frame : FrameId)
    (context : ContextId) : ExecOf Code Value :=
  machine.runCall setup (Call.parse? line) line frame context

/-- The value of a token: of a call if it is one as a whole, and of an expression otherwise. -/
def evaluateToken (machine : Machine Code) (setup : Setup) (token : Token) (frame : FrameId)
    (context : ContextId) : ExecOf Code Value := do
  let text := trim token
  if text = [] then return .null
  match Call.parse? text with
  | some call =>
    if (← Exec.context context).functions.contains call.name then
      machine.callFunction setup call.name (machine.tokens call.args frame context) context
    else machine.command setup text frame context
  | none => Exec.evaluateIn frame text

end Machine

end Inyandiko
