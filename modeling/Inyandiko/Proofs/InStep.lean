import Inyandiko.Proofs.Discipline

/-! The steps that scripts are made of. Whatever a machine does is put together from the steps named
here, and two machines over different code that do the same things do them in step: their code is
related by a recoding, everything else they see is the same. What holds of every step holds of every
run, so properties of runs are proved by induction over these steps and nothing else. -/
namespace Inyandiko

open Source

variable {Code Code' : Type}

/-- Two computations that take the same steps in a context. Names are declared only in the frame
`home`, if there is one, and in frames made on the way. Only hosted computations run commands of the
host; in all others the context has none. -/
inductive InStep (recode : Code → Code') (hosted : Bool) :
    ContextId → Option FrameId → {α : Type} → ExecOf Code α → ExecOf Code' α → Prop
  | pure {context home} {α : Type} (value : α) :
      InStep recode hosted context home (Pure.pure value) (Pure.pure value)
  | throw {context home} {α : Type} (halt : Halt) :
      InStep recode hosted context home (α := α) (throw halt) (throw halt)
  | bind {context home} {α β : Type} {first : ExecOf Code α} {first' : ExecOf Code' α}
      {next : α → ExecOf Code β} {next' : α → ExecOf Code' β}
      (head : InStep recode hosted context home first first')
      (tail : ∀ value, InStep recode hosted context home (next value) (next' value)) :
      InStep recode hosted context home (first >>= next) (first' >>= next')
  | heap {context home} : InStep recode hosted context home Exec.heap Exec.heap
  | scopes {context home} : InStep recode hosted context home Exec.scopes Exec.scopes
  | onHeap {context home} {α : Type} (step : HeapM α) :
      InStep recode hosted context home (Exec.onHeap step) (Exec.onHeap step)
  /-- A look at the context. What is done then depends neither on its hooks nor on whether it stops
  at failed validations. -/
  | context {context home} {α : Type} {next : Context Code → ExecOf Code α}
      {next' : Context Code' → ExecOf Code' α}
      (blind : ∀ run stop hooks, next { run with stopOnInvalid := stop, hooks } = next run)
      (tail : ∀ run : Context Code, (hosted = false → run.commands = .empty) →
        InStep recode hosted context home (next run) (next' (run.recode recode))) :
      InStep recode hosted context home (Exec.context context >>= next) (Exec.context context >>= next')
  | declare {context} (frame : FrameId) (name : String) (value : Value) (isConst : Bool) :
      InStep recode hosted context (some frame)
        (Exec.onScopes (·.declare frame name value isConst))
        (Exec.onScopes (·.declare frame name value isConst))
  | assign {context} (frame : FrameId) (name : String) (value : Value) :
      InStep recode hosted context (some frame)
        (Exec.onScopes (·.assign frame name value)) (Exec.onScopes (·.assign frame name value))
  /-- A new frame becomes the home of what is done then. -/
  | child {context home} {α : Type} (parent : FrameId) {next : FrameId → ExecOf Code α}
      {next' : FrameId → ExecOf Code' α}
      (tail : ∀ frame, InStep recode hosted context (some frame) (next frame) (next' frame)) :
      InStep recode hosted context home (Exec.childFrame parent >>= next)
        (Exec.childFrame parent >>= next')
  | pushResult {context home} (value : Value) :
      InStep recode hosted context home
        (Exec.modifyContext context fun run => { run with results := run.results.push value })
        (Exec.modifyContext context fun run => { run with results := run.results.push value })
  | addExport {context} (name source : String) (frame : FrameId) :
      InStep recode hosted context (some frame)
        (Machine.addExport name source frame context) (Machine.addExport name source frame context)
  | define {context} (header : FunctionHeader) (body : Code) (frame : FrameId) :
      InStep recode hosted context (some frame)
        (Machine.define header body frame context) (Machine.define header (recode body) frame context)
  | log {context home} (level : Level) (component : Component) (message : String) :
      InStep recode hosted context home
        (Exec.log level component message) (Exec.log level component message)
  | write {context home} (text : String) :
      InStep recode hosted context home (Exec.write text) (Exec.write text)
  | request {context home} (made : Request) :
      InStep recode hosted context home (Exec.request made) (Exec.request made)
  | surface {context home} (id : Nat) :
      InStep recode hosted context home (Exec.surface id) (Exec.surface id)
  | onSurface {context home} (id : Nat) {change : Surface → Except Halt Surface}
      (step : ∀ before after, change before = .ok after → Surface.Step before after) :
      InStep recode hosted context home (Exec.onSurface id change) (Exec.onSurface id change)
  | notifyStart {context home} (name : Option String) (line : Line) :
      InStep recode hosted context home
        (Machine.notifyStart name line context) (Machine.notifyStart name line context)
  | notifyFinish {context home} (name : Option String) (line : Line) (value : Value) :
      InStep recode hosted context home
        (Machine.notifyFinish name line value context) (Machine.notifyFinish name line value context)
  | stopIfInvalid {context home} (value : Value) (line : Line) :
      InStep recode hosted context home
        (Machine.stopIfInvalid value line context) (Machine.stopIfInvalid value line context)
  | located {context home} {α : Type} (line : Line) {work : ExecOf Code α} {work' : ExecOf Code' α}
      (inner : InStep recode hosted context home work work') :
      InStep recode hosted context home (Machine.located line work) (Machine.located line work')
  | counted {context home} {α : Type} {call : ExecOf Code α} {call' : ExecOf Code' α}
      (inner : InStep recode hosted context home call call') :
      InStep recode hosted context home (Machine.counted context call) (Machine.counted context call')
  | hostAssign {context home} (allowed : hosted = true) (frame : FrameId) (name : String) (value : Value) :
      InStep recode hosted context home
        (Exec.onScopes (·.assign frame name value)) (Exec.onScopes (·.assign frame name value))
  | hostErase {context home} (allowed : hosted = true) (frame : FrameId) (name : String) :
      InStep recode hosted context home
        (Exec.onScopes (·.erase frame name)) (Exec.onScopes (·.erase frame name))
  | nestedOptions {context home} (allowed : hosted = true) (overrides : Overrides) (frame : FrameId) :
      InStep recode hosted context home
        (Machine.nestedOptions overrides frame context) (Machine.nestedOptions overrides frame context)
  | session {context home} (allowed : hosted = true) (options : RunOptions)
      {work : FrameId → ContextId → ExecOf Code (Option Value)}
      {work' : FrameId → ContextId → ExecOf Code' (Option Value)}
      (inner : ∀ root context,
        InStep recode hosted context (some root) (work root context) (work' root context)) :
      InStep recode hosted context home (Machine.session options work) (Machine.session options work')

namespace InStep

variable {recode : Code → Code'} {hosted : Bool} {context : ContextId} {home : Option FrameId}
  {α : Type}

theorem askHeap (question : Heap → Except Halt α) :
    InStep recode hosted context home (Exec.askHeap question) (Exec.askHeap question) := by
  refine .bind .heap fun heap => ?_
  cases question heap with
  | ok answer => exact .pure answer
  | error halt => exact .throw halt

end InStep

end Inyandiko
