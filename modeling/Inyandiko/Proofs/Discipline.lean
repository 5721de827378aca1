import Inyandiko.Proofs.Exec
import Inyandiko.Proofs.Scope

/-! Disciplines. A discipline is a relation between computations of two machines that respects
everything machines do: it holds of every step and composes. Whatever a machine does is put together
from the steps named here, so two machines that run blocks in a discipline are in it as a whole. A
property of single runs is a discipline that looks at one side only. A discipline may also say which
frames, surfaces and values computations have to do with; every step then keeps to them. What
statements do themselves is a matter of conduct; a discipline is a conduct that also respects how
faults are given the lines of statements. -/
namespace Inyandiko

open Source

variable {Code Code' : Type}

/-- A function with its body as other code. -/
def FunctionDef.recode (recode : Code → Code') (function : FunctionDef Code) : FunctionDef Code' where
  params := function.params
  body := recode function.body
  frame := function.frame

/-- A context with the bodies of its functions as other code. -/
def Context.recode (recode : Code → Code') (run : Context Code) : Context Code' where
  dependencies := run.dependencies
  commands := run.commands
  stopOnInvalid := run.stopOnInvalid
  surface := run.surface
  hooks := run.hooks
  functions := run.functions.map (FunctionDef.recode recode)
  exports := run.exports
  results := run.results
  callDepth := run.callDepth

theorem Context.recode_id (run : Context Code) : run.recode id = run := by
  have same : FunctionDef.recode (id : Code → Code) = id := rfl
  simp only [Context.recode,same,Table.map_id]

/-- What a script may do to a surface in one go. -/
inductive Surface.Step : Surface → Surface → Prop
  | alert (surface : Surface) (message : String) : Step surface (surface.alert message)
  | write {surface after : Surface} {selector text : String}
      (written : surface.write selector (.text text) = .ok after) : Step surface after
  | style {surface after : Surface} {selector property value : String}
      (styled : surface.setStyle selector property value = .ok after) : Step surface after
  | listen {surface after : Surface} {selector event : String} {listener : Listener}
      (bound : surface.listen selector event listener = .ok after) : Step surface after

/-- Two heaps with the same answers to what machines ask of a heap. -/
structure Heap.SameAnswers (heap heap' : Heap) : Prop where
  callable (value : Value) : heap'.isCallable value = heap.isCallable value
  entries (value : Value) : heap'.entries? value = heap.entries? value
  contents (value : Value) : heap'.contents value = heap.contents value
  kind (value : Value) : heap'.kindName value = heap.kindName value

private theorem Heap.SameAnswers.refl (heap : Heap) : heap.SameAnswers heap :=
  ⟨fun _ => rfl, fun _ => rfl, fun _ => rfl, fun _ => rfl⟩

theorem Heap.SameAnswers.of_eq {heap heap' : Heap} (same : heap = heap') : heap.SameAnswers heap' :=
  same ▸ .refl heap

theorem Heap.SameAnswers.toFloat {heap heap' : Heap} (same : heap.SameAnswers heap') (value : Value) :
    heap'.toFloat value = heap.toFloat value := by
  cases value <;> simp only [Heap.toFloat,same.kind]

/-- The families of commands that stand in for built-in ones. -/
def Setup.Replaces (setup : Setup) (family : Family) : Prop :=
  setup.environment = some family ∨ setup.validation = some family ∨ setup.network = some family

/-- Data, and the values it is made of. -/
class Carries (α : Type) where
  values : α → List Value

namespace Carries

variable {α β : Type}

instance : Carries Value := ⟨fun value => [value]⟩
instance : Carries Unit := ⟨fun _ => []⟩
instance : Carries Bool := ⟨fun _ => []⟩
instance : Carries Nat := ⟨fun _ => []⟩
instance : Carries String := ⟨fun _ => []⟩
instance : Carries Number := ⟨fun _ => []⟩
instance : Carries Binary64 := ⟨fun _ => []⟩
instance : Carries Response := ⟨fun _ => []⟩
instance [Carries α] : Carries (Option α) := ⟨fun data => data.elim [] values⟩
instance [Carries α] : Carries (List α) := ⟨fun data => data.flatMap values⟩
instance [Carries α] [Carries β] : Carries (α × β) := ⟨fun data => values data.1 ++ values data.2⟩
instance : Carries Surface := ⟨fun surface => surface.elements.values⟩

instance : Carries Record where
  values record := record.vars.values ++ record.exports.values ++ record.results

instance : Carries Object where
  values
    | .list items | .tuple items => items
    | .dict entries | .form entries | .host _ entries => entries.values
    | .function _ owner attributes => owner.elim [] (fun place => [.ref place]) ++ attributes.values
    | .response _ => []
    | .method receiver _ => [receiver]

instance : Carries Callee where
  values
    | .function _ owner => owner.elim [] fun place => [.ref place]
    | .member _ receiver => [receiver]

/-- All values that data is made of have a property. -/
def All [Carries α] (P : Value → Prop) (data : α) : Prop := ∀ value ∈ values data, P value

variable {P : Value → Prop}

@[simp] theorem all_value {value : Value} : All P value ↔ P value := by simp [All,values]

@[simp] theorem all_unit {data : Unit} : All P data := nofun

@[simp] theorem all_bool {data : Bool} : All P data := nofun

@[simp] theorem all_nat {data : Nat} : All P data := nofun

@[simp] theorem all_string {data : String} : All P data := nofun

@[simp] theorem all_number {data : Number} : All P data := nofun

@[simp] theorem all_binary64 {data : Binary64} : All P data := nofun

@[simp] theorem all_response {data : Response} : All P data := nofun

variable [Carries α] [Carries β]

@[simp] theorem all_none : All P (none : Option α) := nofun

@[simp] theorem all_some {data : α} : All P (some data) ↔ All P data := .rfl

@[simp] theorem all_pair {first : α} {second : β} : All P (first, second) ↔ All P first ∧ All P second := by
  simp [All,values,or_imp,forall_and]

@[simp] theorem all_list {items : List α} : All P items ↔ ∀ item ∈ items, All P item := by
  simp only [All,values,List.mem_flatMap]
  exact ⟨fun all item member value among => all value ⟨item, member, among⟩,
    fun all value ⟨item, member, among⟩ => all item member value among⟩

end Carries

/-- The values that are visible from some frames have a property. -/
def Scopes.Within (At : FrameId → Prop) (Fine : Value → Prop) (scopes : Scopes) : Prop :=
  ∀ frame, At frame → ∀ id ∈ scopes.chain frame, ∀ value ∈ (scopes.frame id).bindings.values, Fine value

theorem Scopes.Within.resolve? {At : FrameId → Prop} {Fine : Value → Prop} {scopes : Scopes}
    (visible : scopes.Within At Fine) {frame : FrameId} (here : At frame) {name : String} {value : Value}
    (found : scopes.resolve? frame name = some value) : Fine value := by
  obtain ⟨owner, owned, read⟩ := Option.bind_eq_some_iff.1 found
  exact visible frame here owner (List.mem_of_find?_eq_some owned) value (Table.mem_values_of_get? read)

/-- A relation between computations that everything statements do respects. Computations belong to a
context; names are declared only in their home, if they have one, and in frames made on the way. -/
structure Conduct (recode : Code → Code') (setup : Setup) where
  /-- Whether commands of the host are run; else contexts have none. -/
  hosted : Bool
  Rel : ContextId → Option FrameId → {α : Type} → [Carries α] → ExecOf Code α → ExecOf Code' α → Prop
  /-- The halts that may occur. -/
  Halts : Halt → Prop
  /-- How the heaps that the two sides see are related. -/
  Alike : Heap → Heap → Prop
  /-- What is known of every context. -/
  Known : Context Code → Prop
  /-- The frames that computations are in. -/
  At : FrameId → Prop
  /-- The surfaces that computations have to do with. -/
  On : Nat → Prop
  /-- The values that computations have to do with. -/
  Fine : Value → Prop
  /-- The code that functions may be defined with. -/
  Body : Code → Prop
  /-- What commands of the host may do. -/
  Does : Action → Prop
  /-- The options of runs inside other ones. -/
  Fit : RunOptions → Prop
  /-- Whether commands of the network are run. -/
  Online : Prop := setup.network = none
  pure {context home} {α : Type} [Carries α] {value : α} (fine : Carries.All Fine value) :
    Rel context home (Pure.pure value) (Pure.pure value)
  throw {context home} {α : Type} [Carries α] {halt : Halt} (allowed : Halts halt) :
    Rel context home (α := α) (throw halt) (throw halt)
  bind {context home} {α β : Type} [Carries α] [Carries β] {first : ExecOf Code α} {first' : ExecOf Code' α}
    {next : α → ExecOf Code β} {next' : α → ExecOf Code' β} (head : Rel context home first first')
    (tail : ∀ value, Carries.All Fine value → Rel context home (next value) (next' value)) :
    Rel context home (first >>= next) (first' >>= next')
  /-- All faults may occur; that calls are nested too deeply is a matter of how calls are counted. -/
  fault {cause : Cause} (other : cause ≠ .callDepth) : Halts (.ofCause cause)
  tooDeep : Halts .tooDeep
  endless : Halts .endless
  tooLarge : Halts (.crash .integerTooLarge)
  flat {value : Value} (plain : ∀ place, value ≠ .ref place) : Fine value
  answers {heap heap' : Heap} (alike : Alike heap heap') : heap.SameAnswers heap'
  closed {heap heap' : Heap} (alike : Alike heap heap') {value : Value} (fine : Fine value)
    {entries : Table Value} (found : heap.entries? value = some entries) : ∀ inner ∈ entries.values, Fine inner
  heap {context home} {α : Type} [Carries α] {next : Heap → ExecOf Code α} {next' : Heap → ExecOf Code' α}
    (tail : ∀ heap heap', Alike heap heap' → Rel context home (next heap) (next' heap')) :
    Rel context home (Exec.heap >>= next) (Exec.heap >>= next')
  scopes {context home} {α : Type} [Carries α] {next : Scopes → ExecOf Code α}
    {next' : Scopes → ExecOf Code' α}
    (tail : ∀ scopes : Scopes, scopes.Within At Fine → Rel context home (next scopes) (next' scopes)) :
    Rel context home (Exec.scopes >>= next) (Exec.scopes >>= next')
  evaluate {context home} {lookup : String → Option Value}
    (visible : ∀ name value, lookup name = some value → Fine value) (token : Token) :
    Rel context home (Exec.onHeap (evaluate lookup token)) (Exec.onHeap (evaluate lookup token))
  hostText {context home} (value : Value) : Rel context home (Exec.hostText value) (Exec.hostText value)
  displayText {context home} (value : Value) :
    Rel context home (Exec.displayText value) (Exec.displayText value)
  method {context home} {target : Value} (fine : Fine target) (name : String) :
    Rel context home (Exec.onHeap (Dependency.method? target name))
      (Exec.onHeap (Dependency.method? target name))
  member {context home} {target : Value} (fine : Fine target) (name : String) :
    Rel context home (Exec.onHeap (Dependency.member? target name))
      (Exec.onHeap (Dependency.member? target name))
  call {context home} {target : Value} {args : List Value} (fine : Fine target)
    (given : ∀ arg ∈ args, Fine arg) :
    Rel context home (Exec.onHeap (setup.host.callValue target args))
      (Exec.onHeap (setup.host.callValue target args))
  /-- A look at the context. What is done then depends neither on its hooks nor on whether it stops
  at failed validations. -/
  context {context home} {α : Type} [Carries α] {next : Context Code → ExecOf Code α}
    {next' : Context Code' → ExecOf Code' α}
    (blind : ∀ run stop hooks, next { run with stopOnInvalid := stop, hooks } = next run)
    (tail : ∀ run, Known run → Rel context home (next run) (next' (run.recode recode))) :
    Rel context home (Exec.context context >>= next) (Exec.context context >>= next')
  dependencies {run : Context Code} (known : Known run) : ∀ value ∈ run.dependencies.values, Fine value
  facing {run : Context Code} (known : Known run) {id : Nat} (found : run.surface = some id) : On id
  within {run : Context Code} (known : Known run) {name : String} {function : FunctionDef Code}
    (found : run.functions.get? name = some function) : At function.frame
  declare {context} {frame : FrameId} (here : At frame) (name : String) {value : Value} (fine : Fine value)
    (isConst : Bool) :
    Rel context (some frame) (Exec.onScopes (·.declare frame name value isConst))
      (Exec.onScopes (·.declare frame name value isConst))
  assign {context} {frame : FrameId} (here : At frame) (name : String) {value : Value} (fine : Fine value) :
    Rel context (some frame) (Exec.onScopes (·.assign frame name value))
      (Exec.onScopes (·.assign frame name value))
  /-- A new frame becomes the home of what is done then. -/
  child {context home} {α : Type} [Carries α] {parent : FrameId} (here : At parent)
    {next : FrameId → ExecOf Code α} {next' : FrameId → ExecOf Code' α}
    (tail : ∀ frame, At frame → Rel context (some frame) (next frame) (next' frame)) :
    Rel context home (Exec.childFrame parent >>= next) (Exec.childFrame parent >>= next')
  pushResult {context home} {value : Value} (fine : Fine value) :
    Rel context home
      (Exec.modifyContext context fun run => { run with results := run.results.push value })
      (Exec.modifyContext context fun run => { run with results := run.results.push value })
  /-- Names that are exported are bound: they have just been looked for, declared or assigned. -/
  exportBound {context} (name source : String) {frame : FrameId} (here : At frame) {α : Type} [Carries α]
    {next other : ExecOf Code α} {next' other' : ExecOf Code' α} (tail : Rel context (some frame) next next')
    (failed : Rel context (some frame) other other') :
    Rel context (some frame)
      (do
        if (← Exec.scopes).binds frame source then
          Machine.addExport name source frame context
          next
        else other)
      (do
        if (← Exec.scopes).binds frame source then
          Machine.addExport name source frame context
          next'
        else other')
  exportDeclared {context} {frame : FrameId} (here : At frame) (name : String) {value : Value}
    (fine : Fine value) (isConst : Bool) :
    Rel context (some frame)
      (do
        Exec.onScopes (·.declare frame name value isConst)
        Machine.addExport name name frame context)
      (do
        Exec.onScopes (·.declare frame name value isConst)
        Machine.addExport name name frame context)
  exportAssigned {context} {frame : FrameId} (here : At frame) (name : String) {value : Value}
    (fine : Fine value) :
    Rel context (some frame)
      (do
        Exec.onScopes (·.assign frame name value)
        Machine.addExport name name frame context)
      (do
        Exec.onScopes (·.assign frame name value)
        Machine.addExport name name frame context)
  define {context} (header : FunctionHeader) {body : Code} (allowed : Body body) {frame : FrameId}
    (here : At frame) :
    Rel context (some frame)
      (Machine.define header body frame context) (Machine.define header (recode body) frame context)
  log {context home} (level : Level) (component : Component) (message : String) :
    Rel context home (Exec.log level component message) (Exec.log level component message)
  write {context home} (text : String) : Rel context home (Exec.write text) (Exec.write text)
  surface {context home} {id : Nat} (facing : On id) : Rel context home (Exec.surface id) (Exec.surface id)
  onSurface {context home} {id : Nat} (facing : On id) {change : Surface → Except Halt Surface}
    (step : ∀ before after, change before = .ok after → Surface.Step before after)
    (halts : ∀ before halt, change before = .error halt → Halts halt) :
    Rel context home (Exec.onSurface id change) (Exec.onSurface id change)
  stopIfInvalid {context home} (value : Value) (line : Line) :
    Rel context home (Machine.stopIfInvalid value line context)
      (Machine.stopIfInvalid value line context)
  -- what families of commands do that the host puts in place of the built-in ones
  replaced {context home} {family : Family} (given : setup.Replaces family) (line : Line) {names : Table Value}
    (fine : ∀ value ∈ names.values, Fine value) :
    Rel context home (Exec.onHeap (setup.host.family family line names))
      (Exec.onHeap (setup.host.family family line names))
  -- what only the commands of the network do
  allocate {context home} (online : Online) {object : Object}
    (fine : Carries.All Fine object) :
    Rel context home (Exec.onHeap (allocate object)) (Exec.onHeap (allocate object))
  document {context home} (online : Online) (response : Response) :
    Rel context home (Exec.onHeap response.body) (Exec.onHeap response.body)
  request {context home} (online : Online) (made : Request) :
    Rel context home (Exec.request made) (Exec.request made)
  unreachable (online : Online) : Halts (.crash .unreachable)
  timeout (online : Online) {heap : Heap} {crash : Crash}
    (failed : heap.toFloat setup.timeout = .error crash) : Halts (.crash crash)
  -- what only the commands of the host do
  plain (unhosted : hosted = false) {run : Context Code} (known : Known run) : run.commands = .empty
  handler {run : Context Code} (known : Known run) {name handler : String}
    (found : run.commands.get? name = some handler) {given : CommandContext}
    (args : ∀ arg ∈ given.args, Fine arg)
    (dependencies : ∀ value ∈ given.dependencies.values, Fine value) :
    Does (setup.host.handler handler given)
  gives {value : Value} (does : Does (.done value)) : Fine value
  fails {halt : Halt} (does : Does (.fail halt)) : Halts halt
  examine {next : Heap → Action} (does : Does (.examine next)) {heap heap' : Heap}
    (alike : Alike heap heap') : next heap' = next heap ∧ Does (next heap)
  make {context home} {object : Object} {next : Value → Action} (does : Does (.make object next)) :
    Rel context home (Exec.onHeap (Inyandiko.allocate object)) (Exec.onHeap (Inyandiko.allocate object)) ∧
      ∀ value, Fine value → Does (next value)
  visible {next : Table Value → Action} (does : Does (.visible next)) {table : Table Value}
    (fine : ∀ value ∈ table.values, Fine value) : Does (next table)
  hostAssign {context home} {name : String} {value : Value} {next : Action}
    (does : Does (.assign name value next)) {frame : FrameId} (here : At frame) :
    Rel context home (Exec.onScopes (·.assign frame name value))
      (Exec.onScopes (·.assign frame name value)) ∧ Does next
  hostErase {context home} {name : String} {next : Action} (does : Does (.erase name next))
    {frame : FrameId} (here : At frame) :
    Rel context home (Exec.onScopes (·.erase frame name)) (Exec.onScopes (·.erase frame name)) ∧ Does next
  nested {context home} {source : String} {overrides : Overrides} {next : Record → Action}
    (does : Does (.run source overrides next)) {frame : FrameId} (here : At frame) {α : Type} [Carries α]
    {work : RunOptions → ExecOf Code α} {work' : RunOptions → ExecOf Code' α}
    (tail : ∀ options, Fit options → Rel context home (work options) (work' options)) :
    Rel context home (Machine.nestedOptions overrides frame context >>= work)
      (Machine.nestedOptions overrides frame context >>= work')
  resumes {source : String} {overrides : Overrides} {next : Record → Action}
    (does : Does (.run source overrides next)) {record : Record} (fine : Carries.All Fine record) :
    Does (next record)
  session {context home} (allowed : hosted = true) {options : RunOptions} (fit : Fit options)
    {work : FrameId → ContextId → ExecOf Code (Option Value)}
    {work' : FrameId → ContextId → ExecOf Code' (Option Value)}
    (inner : ∀ root context, At root → Rel context (some root) (work root context) (work' root context)) :
    Rel context home (Machine.session options work) (Machine.session options work')

/-- A relation between computations that everything machines do respects: faults may already have a
line, and may be given one. -/
structure Discipline (recode : Code → Code') (setup : Setup) extends Conduct recode setup where
  placed {fault : Fault} (other : fault.cause ≠ .callDepth) : Halts (.fault fault)
  fault other := placed other
  located {context home} {α : Type} [Carries α] (line : Line) {work : ExecOf Code α} {work' : ExecOf Code' α}
    (inner : Rel context home work work') :
    Rel context home (Machine.located line work) (Machine.located line work')

/-- With commands of the host at work, nothing is asked of contexts without them. -/
theorem Context.plain_of_hosted (unhosted : true = false) {run : Context} (_known : True) :
    run.commands = .empty := by
  cases unhosted

end Inyandiko
