import Inyandiko.Expression
import Inyandiko.Host
import Inyandiko.Scope
import Inyandiko.Surface
import Inyandiko.Value.Datum

/-! The world that scripts act on: heap, frames, run contexts, surfaces, and the traces that runs
leave: output, log, network requests and lifecycle events. What a run changes stays changed when
it fails. The bodies of functions are kept as code of the kind that the machine at work runs; for
scripts that is lines. -/
namespace Inyandiko

open Source

/-- A function of a script, with the frame it was defined in. -/
structure FunctionDef (Code : Type := List Line) where
  params : List String
  body : Code
  frame : FrameId

structure Context (Code : Type := List Line) where
  dependencies : Table Value := .empty
  commands : Table String := .empty
  stopOnInvalid : Bool := true
  surface : Option Nat := none
  hooks : Hooks := {}
  functions : Table (FunctionDef Code) := .empty
  /-- The exported names, each with the frame and the name it is read from. -/
  exports : Table (FrameId × String) := .empty
  results : Array Value := #[]
  /-- The number of the run's function calls under way. -/
  callDepth : Nat := 0
  deriving Inhabited

abbrev ContextId := Nat

inductive Level
  | debug
  | warning
  deriving DecidableEq, Repr

inductive Component
  | interpreter
  | environment
  | runner
  | service
  | commandLine
  deriving DecidableEq, Repr

def Level.name : Level → String
  | .debug => "DEBUG"
  | .warning => "WARNING"

def Component.name : Component → String
  | .interpreter => "backend.ikinyarwanda.interpreter"
  | .environment => "backend.ikinyarwanda.environment"
  | .runner => "backend.ikinyarwanda.runner"
  | .service => "backend.app.main"
  | .commandLine => "ikin"

structure LogEntry where
  level : Level
  component : Component
  message : String
  deriving DecidableEq, Repr

def LogEntry.render (entry : LogEntry) : String :=
  s!"{entry.level.name} {entry.component.name}: {entry.message}"

inductive Request
  | fetch (url : String) (timeout : Binary64)
  | send (url : String) (timeout : Binary64) (isForm : Bool) (payload : Datum)

inductive Event
  | start (name line : String)
  | finish (name line : String) (value : Datum)
  | error (halt : Halt)

structure World (Code : Type := List Line) where
  heap : Heap := {}
  scopes : Scopes := {}
  contexts : Array (Context Code) := #[]
  surfaces : Array Surface := #[]
  output : Array String := #[]
  log : Array LogEntry := #[]
  requests : Array Request := #[]
  events : Array Event := #[]
  deriving Inhabited

def World.printed (world : World) : String := String.join (world.output.toList.map (· ++ "\n"))

def World.logLines (world : World) (details : Bool) : List String :=
  (world.log.toList.filter fun entry => details || entry.level = .warning).map LogEntry.render

abbrev ExecOf (Code : Type) := ExceptT Halt (StateM (World Code))

abbrev Exec := ExecOf (List Line)

namespace Exec

variable {Code α : Type}

def heap : ExecOf Code Heap := do return (← get).heap

def scopes : ExecOf Code Scopes := do return (← get).scopes

def onHeap (step : HeapM α) : ExecOf Code α := do
  match step.run (← heap) with
  | .ok (value, heap) =>
    modify fun world => { world with heap }
    return value
  | .error halt => throw halt

def askHeap (question : Heap → Except Halt α) : ExecOf Code α := do
  match question (← heap) with
  | .ok answer => return answer
  | .error halt => throw halt

def attempt (step : ExecOf Code α) : ExecOf Code (Except Halt α) :=
  fun world => let (outcome, world) := step world; (.ok outcome, world)

def context (id : ContextId) : ExecOf Code (Context Code) := do return (← get).contexts[id]?.getD {}

def modifyContext (id : ContextId) (change : Context Code → Context Code) : ExecOf Code Unit :=
  modify fun world => { world with contexts := world.contexts.modify id change }

def onScopes (change : Scopes → Except Halt Scopes) : ExecOf Code Unit := do
  match change (← scopes) with
  | .ok scopes => modify fun world => { world with scopes }
  | .error halt => throw halt

def childFrame (id : FrameId) : ExecOf Code FrameId :=
  modifyGet fun world =>
    let (child, scopes) := world.scopes.child id
    (child, { world with scopes })

def surface (id : Nat) : ExecOf Code Surface := do return (← get).surfaces[id]?.getD {}

def onSurface (id : Nat) (change : Surface → Except Halt Surface) : ExecOf Code Unit := do
  match change (← surface id) with
  | .ok changed => modify fun world => { world with surfaces := world.surfaces.setIfInBounds id changed }
  | .error halt => throw halt

def log (level : Level) (component : Component) (message : String) : ExecOf Code Unit :=
  modify fun world => { world with log := world.log.push ⟨level, component, message⟩ }

def write (text : String) : ExecOf Code Unit :=
  modify fun world => { world with output := world.output.push text }

def request (made : Request) : ExecOf Code Unit :=
  modify fun world => { world with requests := world.requests.push made }

def record (event : Event) : ExecOf Code Unit :=
  modify fun world => { world with events := world.events.push event }

def fail (cause : Cause) : ExecOf Code α := throw (.ofCause cause)

def evaluateIn (frame : FrameId) (token : Token) : ExecOf Code Value := do
  onHeap (evaluate ((← scopes).resolve? frame) token)

def hostText (value : Value) : ExecOf Code String := askHeap (·.hostText value)

def displayText (value : Value) : ExecOf Code String := askHeap (·.displayText value)

end Exec

end Inyandiko
