import Inyandiko.Machine.Loop

/-! The levels of the machine: how statements, blocks and whole scripts run with the machine of
the level below inside them. -/
namespace Inyandiko

open Text Source

namespace Machine

variable {Code α : Type}

/-- Takes names in from a dependency, each as a constant. -/
def takeMembers (dependency : Value) (source : String) (frame : FrameId) :
    List (String × String) → ExecOf Code Unit
  | [] => return
  | (member, name) :: pairs => do
    match ← Exec.onHeap (Dependency.member? dependency member) with
    | none => Exec.fail (.missingMember member source)
    | some value =>
      Exec.onScopes (·.declare frame name value true)
      takeMembers dependency source frame pairs

def importSource (name : String) (context : ContextId) : ExecOf Code Value := do
  match (← Exec.context context).dependencies.get? name with
  | some value => return value
  | none => Exec.fail (.missingImport name)

def takeIn (names : Import) (frame : FrameId) (context : ContextId) : ExecOf Code Unit := do
  match names with
  | .whole dependency name =>
    let value ← importSource dependency context
    Exec.onScopes (·.declare frame name value true)
  | .members dependency pairs =>
    let value ← importSource dependency context
    takeMembers value dependency frame pairs

def addExport (name source : String) (frame : FrameId) (context : ContextId) : ExecOf Code Unit :=
  Exec.modifyContext context fun run => { run with exports := run.exports.insert name (frame, source) }

def handOutNames (frame : FrameId) (context : ContextId) : List (String × String) → ExecOf Code Unit
  | [] => return
  | (source, name) :: pairs => do
    if (← Exec.scopes).binds frame source then
      addExport name source frame context
      handOutNames frame context pairs
    else Exec.fail (.unknownExport source)

def declare (machine : Machine Code) (declared : Declaration) (frame : FrameId) (context : ContextId) :
    ExecOf Code Unit := do
  let value ← machine.token declared.expression frame context
  Exec.onScopes (·.declare frame declared.name value declared.isConst)

def assign (machine : Machine Code) (assigned : Assignment) (frame : FrameId) (context : ContextId) :
    ExecOf Code Unit := do
  let value ← machine.token assigned.expression frame context
  Exec.onScopes (·.assign frame assigned.name value)

def handOut (machine : Machine Code) (names : Export) (frame : FrameId) (context : ContextId) : ExecOf Code Unit := do
  match names with
  | .declaration declared =>
    machine.declare declared frame context
    addExport declared.name declared.name frame context
  | .assignment assigned =>
    machine.assign assigned frame context
    addExport assigned.name assigned.name frame context
  | .names pairs => handOutNames frame context pairs

def define (header : FunctionHeader) (body : Code) (frame : FrameId) (context : ContextId) :
    ExecOf Code Unit := do
  Exec.modifyContext context fun run =>
    { run with functions := run.functions.insert header.name ⟨header.params, body, frame⟩ }
  let params := ", ".intercalate header.params
  Exec.log .debug .interpreter s!"function defined: {header.name}({params})"

/-- Runs a statement; gives the value of a return. -/
def statement (machine : Machine Code) (setup : Setup) (frame : FrameId) (context : ContextId) :
    Statement → ExecOf Code (Option Value)
  | .define header body => do
    define header (machine.code body) frame context
    return none
  | .loop header body => machine.loop header (machine.code body) frame context
  | .branch condition body otherwise => do
    let value ← machine.token condition frame context
    let lines := if value.truthy then body else otherwise
    machine.block (machine.code lines) (← Exec.childFrame frame) context
  | .giveBack expression =>
    if expression = [] then return some .null
    else some <$> machine.token expression frame context
  | .takeIn names => do
    takeIn names frame context
    return none
  | .handOut names => do
    machine.handOut names frame context
    return none
  | .declare declared => do
    machine.declare declared frame context
    return none
  | .assign assigned => do
    machine.assign assigned frame context
    return none
  | .command line => do
    let value ← machine.command setup line frame context
    if value ≠ .null then
      Exec.modifyContext context fun run => { run with results := run.results.push value }
    return none

/-- Runs a statement's work; its faults get its line, and nesting that is too deep becomes one. -/
def located (line : Line) (work : ExecOf Code α) : ExecOf Code α := do
  match ← Exec.attempt work with
  | .ok value => return value
  | .error (.fault fault) => throw (.fault (fault.locate (String.ofList line)))
  | .error .tooDeep => throw (.fault ⟨.tooDeep, some (String.ofList line)⟩)
  | .error halt => throw halt

/-- Runs the statements of a block up to the first return. -/
def items (run : Statement → ExecOf Code (Option Value)) : List Statement.Item → ExecOf Code (Option Value)
  | [] => return none
  | item :: rest => do
    let signal ← located item.line
      (match item.statement with
        | .error fault => throw (.fault fault)
        | .ok statement => run statement)
    match signal with
    | some value => return some value
    | none => items run rest

/-- What is left of a run: the variables of its root, its exports as they are now, its results. -/
def result (root : FrameId) (context : ContextId) (failedLine : Option String) : ExecOf Code Record := do
  let run ← Exec.context context
  let scopes ← Exec.scopes
  return {
    failedLine
    vars := (scopes.frame root).bindings
    exports := run.exports.map fun (frame, name) => (scopes.resolve? frame name).getD .null
    results := run.results.toList }

def initialVariables (options : RunOptions) : Table Value :=
  if options.injectDependencies then
    options.vars.insertAll
      (options.dependencies.entries.filter fun entry => !options.vars.contains entry.1)
  else options.vars

def startContext (options : RunOptions) : Context Code where
  dependencies := options.dependencies
  commands := options.commands
  stopOnInvalid := options.stopOnInvalid
  surface := options.surface
  hooks := options.hooks

def openRun (options : RunOptions) : ExecOf Code (FrameId × ContextId) :=
  modifyGet fun world =>
    let (root, scopes) := world.scopes.push (initialVariables options) none
    ((root, world.contexts.size),
      { world with scopes, contexts := world.contexts.push (startContext options) })

def abort (hooks : Hooks) (halt : Halt) : ExecOf Code α := do
  notify hooks.error "error" (.error halt)
  throw halt

/-- Ends a run whose work is done: gives what is left of it, or stops with what stopped the work. -/
def conclude (hooks : Hooks) (root : FrameId) (context : ContextId) :
    Except Halt (Option Value) → ExecOf Code Record
  | .ok _ => do
    let count := (← Exec.context context).results.size
    Exec.log .debug .interpreter s!"run finished: {count} result(s)"
    result root context none
  | .error (.invalid line) => do
    Exec.log .debug .interpreter s!"run stopped by validation at: {line}"
    result root context (some line)
  | .error halt => abort hooks halt

def session (options : RunOptions) (work : FrameId → ContextId → ExecOf Code (Option Value)) :
    ExecOf Code Record := do
  let (root, context) ← openRun options
  conclude options.hooks root context (← Exec.attempt (work root context))

def script (machine : Machine Code) (source : String) (options : RunOptions) : ExecOf Code Record := do
  let lines := Source.lines source.toList
  Exec.log .debug .interpreter s!"run started: {lines.length} logical lines"
  session options (machine.block (machine.code lines))

def linesBlock (setup : Setup) (machine : Machine Code) (lines : List Line) (frame : FrameId)
    (context : ContextId) : ExecOf Code (Option Value) :=
  items (machine.statement setup frame context) (Statement.items lines)

def next (setup : Setup) (machine : Machine Code)
    (block : Code → FrameId → ContextId → ExecOf Code (Option Value)) : Machine Code where
  code := machine.code
  block
  token token frame context := machine.evaluateToken setup token frame context
  run source options := machine.script source options

/-- The machine of a level, for code that is run with the machine of the level below. -/
def levelOf (setup : Setup) (code : List Line → Code)
    (block : Machine Code → Code → FrameId → ContextId → ExecOf Code (Option Value)) :
    Nat → Machine Code
  | 0 => exhausted code
  | depth + 1 =>
    let machine := levelOf setup code block depth
    next setup machine (block machine)

def level (setup : Setup) : Nat → Machine := levelOf setup id (linesBlock setup)

/-- The number of levels that scripts may be nested. -/
def levels : Nat := 1000

def full (setup : Setup) : Machine := level setup levels

def fire (machine : Machine Code) (setup : Setup) (payload : Value) :
    List Listener → ExecOf Code (List Value)
  | [] => return []
  | listener :: listeners => do
    let value ← machine.callFunction setup listener.function (pure [payload]) listener.context
    return value :: (← fire machine setup payload listeners)

end Machine

def execute (setup : Setup) (source : String) (options : RunOptions) : Exec Record :=
  (Machine.full setup).run source options

def dispatch (setup : Setup) (surface : Nat) (selector event : String) (payload : Value) :
    Exec (List Value) := do
  (Machine.full setup).fire setup payload ((← Exec.surface surface).listenersOf selector event)

end Inyandiko
