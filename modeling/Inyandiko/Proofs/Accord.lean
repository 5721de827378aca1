import Inyandiko.Proofs.Discipline.Level
import Inyandiko.Proofs.Likeness.Kit

/-! Accords. Most of what statements do has nothing to do with the contexts of runs, and no part of it
with the events that hooks record. An accord is a relation between computations on the same heaps and
frames that takes all this for granted; what is left to say is how it takes to contexts, to hooks, to
calls under way and to runs inside other ones. Accords are conducts, so machines whose blocks are in an
accord are in it as a whole. -/
namespace Inyandiko

open Source

variable {α β : Type}

/-- The halts that a command of the host fails with itself. -/
def Action.Fails (Halts : Halt → Prop) : Action → Prop
  | .done _ => True
  | .fail halt => Halts halt
  | .examine next => ∀ heap, (next heap).Fails Halts
  | .make _ next => ∀ value, (next value).Fails Halts
  | .visible next => ∀ names, (next names).Fails Halts
  | .assign _ _ next | .erase _ next => next.Fails Halts
  | .run _ _ next => ∀ record, (next record).Fails Halts

/-- A host whose functions, lent members, families and commands themselves fail with some halts only. -/
structure Host.FailsBy (host : Host) (Halts : Halt → Prop) : Prop where
  call (callee : Callee) (args : List Value) (heap : Heap) (halt : Halt) :
    host.call callee args heap = .error halt → Halts halt
  family (family : Family) (line : Line) (names : Table Value) (heap : Heap) (halt : Halt) :
    host.family family line names heap = .error halt → Halts halt
  handler (name : String) (given : CommandContext) : (host.handler name given).Fails Halts

private theorem Action.fails_anyhow (action : Action) : action.Fails fun _ => True := by
  induction action with
  | done => trivial
  | fail => trivial
  | examine next ih => exact ih
  | make object next ih => exact ih
  | visible next ih => exact ih
  | assign name value next ih => exact ih
  | erase name next ih => exact ih
  | run source overrides next ih => exact ih

theorem Setup.handler_fails_anyhow (setup : Setup) (name : String) (given : CommandContext) :
    (setup.host.handler name given).Fails fun _ => True :=
  Action.fails_anyhow _

private theorem Action.Fails.imp {Halts More : Halt → Prop} (more : ∀ halt, Halts halt → More halt) {action : Action}
    (fails : action.Fails Halts) : action.Fails More := by
  induction action with
  | done => trivial
  | fail halt => exact more halt fails
  | examine next ih => exact fun heap => ih heap (fails heap)
  | make object next ih => exact fun value => ih value (fails value)
  | visible next ih => exact fun names => ih names (fails names)
  | assign name value next ih => exact ih fails
  | erase name next ih => exact ih fails
  | run source overrides next ih => exact fun record => ih record (fails record)

theorem Host.FailsBy.imp {host : Host} {Halts More : Halt → Prop} (more : ∀ halt, Halts halt → More halt)
    (fails : host.FailsBy Halts) : host.FailsBy More where
  call callee args heap halt failed := more halt (fails.call callee args heap halt failed)
  family family line names heap halt failed := more halt (fails.family family line names heap halt failed)
  handler name given := (fails.handler name given).imp more

/-- Halts that computations on values run into: a fault whose statement is not known, a crash, or a value
that is nested too deeply. -/
inductive Halt.Simple : Halt → Prop
  | cause (cause : Cause) : Simple (.ofCause cause)
  | crash (crash : Crash) : Simple (.crash crash)
  | tooDeep : Simple .tooDeep

namespace Kit

private theorem countUp_ok (owner : Option Nat) (heap : Heap) : ∃ result, countUp owner heap = .ok result := by
  cases owner with
  | none => exact ⟨_, rfl⟩
  | some place =>
    simp only [countUp,bind,StateT.bind,get,getThe,MonadStateOf.get,StateT.get,pure,Except.pure,Except.bind]
    rcases heap.objects[place]? with _ | object
    · exact ⟨_, rfl⟩
    · cases object <;> exact ⟨_, rfl⟩

private theorem call_fails {callee : Callee} {args : List Value} {heap : Heap} {halt : Halt}
    (failed : call callee args heap = .error halt) : halt.Simple := by
  let L : Likeness Host.bare := .ofEq Host.bare Halt.Simple (fun _ => .cause _) .tooDeep .crash
    fun _ _ _ _ failed => by
      cases failed
      exact .crash _
  have count (owner : Option Nat) : L.Rel (countUp owner) (countUp owner) := by
    rintro heap _ rfl
    obtain ⟨result, counted⟩ := countUp_ok owner heap
    rw [HeapM.YieldsAt,counted]
    exact ⟨.ok result.1 rfl, fun _ _ _ _ _ => trivial⟩
  have same : L.Rel (call callee args) (call callee args) :=
    L.kit (fun alike => alike.symm) .crash (fun _ _ => trivial) fun _ owner _ => count owner
  have ends := (same heap heap rfl).1
  rw [failed] at ends
  cases ends with
  | error allowed => exact allowed

private theorem product_fails (args : List Value) : (product args).Fails Halt.Simple := by
  unfold product
  split
  · rename_i failed
    unfold numbers at failed
    split at failed
    · cases failed
      exact .crash _
    · obtain ⟨item, -, failed⟩ := error_of_mapM failed
      split at failed <;> cases failed
      exact .crash _
  · split
    · trivial
    · exact .crash _
  · exact .crash _

private theorem total_fails (sum : Number) (args : List Value) : (total sum args).Fails Halt.Simple := by
  induction args generalizing sum with
  | nil => trivial
  | cons arg args ih =>
    cases arg with
    | number n =>
      rw [total]
      cases sum.add n with
      | ok sum => exact ih sum
      | error crash => exact .crash _
    | _ => exact .crash _

private theorem nested_fails (args : List Value) : (nested args).Fails Halt.Simple := by
  unfold nested
  split
  · exact .crash _
  · exact fun _ _ _ _ _ _ => trivial
  · exact fun _ => .crash _

theorem fails_simply : host.FailsBy Halt.Simple where
  call _ _ _ _ := call_fails
  family name line names heap halt failed := by
    change family name line names heap = .error halt at failed
    unfold family at failed
    split at failed <;> cases failed
  handler name given := by
    change (handler name given).Fails _
    unfold handler
    split
    · exact product_fails _
    · exact total_fails _ _
    case h_3 => exact fun _ _ _ => trivial
    case h_4 | h_7 => trivial
    case h_5 | h_6 => exact fun _ => .crash _
    case h_11 => exact fun _ _ => trivial
    case h_12 => exact fun _ => trivial
    case h_14 => exact nested_fails _
    all_goals exact .crash _

end Kit

/-- What is done to the surfaces in one go. -/
inductive Surface.Moves : Array Surface → Array Surface → Prop
  | none (surfaces : Array Surface) : Moves surfaces surfaces
  | step (surfaces : Array Surface) (id : Nat) {after : Surface}
      (step : Surface.Step (surfaces[id]?.getD {}) after) : Moves surfaces (surfaces.setIfInBounds id after)
  | make (surfaces : Array Surface) (elements : Table Value) : Moves surfaces (surfaces.push { elements })

/-- A computation that has to do neither with contexts nor with events, and that runs into some halts
only. -/
structure Exec.Apart (Halts : Halt → Prop) (work : Exec α) : Prop where
  blind (world : World) (contexts : Array Context) (events : Array Event) :
    work { world with contexts, events } = ((work world).1, { (work world).2 with contexts, events })
  surfaces (world : World) : Surface.Moves world.surfaces (work world).2.surfaces
  halts (world : World) (halt : Halt) : (work world).1 = .error halt → Halts halt

namespace Exec.Apart

variable {Halts : Halt → Prop}

theorem contexts {work : Exec α} (apart : Apart Halts work) (world : World) :
    (work world).2.contexts = world.contexts :=
  congrArg (·.2.contexts) (apart.blind world world.contexts world.events)

theorem events {work : Exec α} (apart : Apart Halts work) (world : World) :
    (work world).2.events = world.events :=
  congrArg (·.2.events) (apart.blind world world.contexts world.events)

private theorem plain {work : Exec α} (blind : ∀ (world : World) contexts events,
      work { world with contexts, events } = ((work world).1, { (work world).2 with contexts, events }))
    (surfaces : ∀ world, (work world).2.surfaces = world.surfaces)
    (fine : ∀ world, ∃ value, (work world).1 = .ok value) : Apart Halts work where
  blind := blind
  surfaces world := by
    rw [surfaces]
    exact .none _
  halts world halt failed := by
    obtain ⟨value, done⟩ := fine world
    rw [done] at failed
    cases failed

theorem pure (value : α) : Apart Halts (Pure.pure value) := plain (fun _ _ _ => rfl) (fun _ => rfl) fun _ => ⟨_, rfl⟩

theorem throw {halt : Halt} (allowed : Halts halt) : Apart Halts (MonadExcept.throw halt : Exec α) where
  blind _ _ _ := rfl
  surfaces _ := .none _
  halts _ _ same := Except.error.inj same ▸ allowed

theorem heap : Apart Halts (Exec.heap : Exec Heap) := plain (fun _ _ _ => rfl) (fun _ => rfl) fun _ => ⟨_, rfl⟩

theorem scopes : Apart Halts (Exec.scopes : Exec Scopes) :=
  plain (fun _ _ _ => rfl) (fun _ => rfl) fun _ => ⟨_, rfl⟩

theorem childFrame (frame : FrameId) : Apart Halts (Exec.childFrame frame : Exec FrameId) :=
  plain (fun _ _ _ => rfl) (fun _ => rfl) fun _ => ⟨_, rfl⟩

theorem log (level : Level) (component : Component) (message : String) :
    Apart Halts (Exec.log level component message : Exec Unit) :=
  plain (fun _ _ _ => rfl) (fun _ => rfl) fun _ => ⟨_, rfl⟩

theorem write (text : String) : Apart Halts (Exec.write text : Exec Unit) :=
  plain (fun _ _ _ => rfl) (fun _ => rfl) fun _ => ⟨_, rfl⟩

theorem request (made : Request) : Apart Halts (Exec.request made : Exec Unit) :=
  plain (fun _ _ _ => rfl) (fun _ => rfl) fun _ => ⟨_, rfl⟩

theorem surface (id : Nat) : Apart Halts (Exec.surface id : Exec Surface) :=
  plain (fun _ _ _ => rfl) (fun _ => rfl) fun _ => ⟨_, rfl⟩

theorem onHeap {step : HeapM α} (halts : ∀ heap halt, step heap = .error halt → Halts halt) :
    Apart Halts (Exec.onHeap step : Exec α) where
  blind world contexts events := by
    rw [Exec.onHeap_run,Exec.onHeap_run]
    cases step world.heap <;> rfl
  surfaces world := by
    rw [Exec.onHeap_run]
    cases step world.heap <;> exact .none _
  halts world halt failed := by
    rw [Exec.onHeap_run] at failed
    cases ended : step world.heap with
    | ok result => rw [ended] at failed; cases failed
    | error other =>
      rw [ended] at failed
      cases failed
      exact halts world.heap _ ended

theorem askHeap {question : Heap → Except Halt α}
    (halts : ∀ heap halt, question heap = .error halt → Halts halt) :
    Apart Halts (Exec.askHeap question : Exec α) where
  blind world contexts events := by rw [Exec.askHeap_run,Exec.askHeap_run]
  surfaces world := by
    rw [Exec.askHeap_run]
    exact .none _
  halts world halt failed := by
    rw [Exec.askHeap_run] at failed
    exact halts world.heap halt failed

theorem onScopes {change : Scopes → Except Halt Scopes}
    (halts : ∀ scopes halt, change scopes = .error halt → Halts halt) :
    Apart Halts (Exec.onScopes change : Exec Unit) where
  blind world contexts events := by
    rw [Exec.onScopes_run,Exec.onScopes_run]
    cases change world.scopes <;> rfl
  surfaces world := by
    rw [Exec.onScopes_run]
    cases change world.scopes <;> exact .none _
  halts world halt failed := by
    rw [Exec.onScopes_run] at failed
    cases ended : change world.scopes with
    | ok scopes => rw [ended] at failed; cases failed
    | error other =>
      rw [ended] at failed
      cases failed
      exact halts world.scopes _ ended

theorem onSurface {id : Nat} {change : Surface → Except Halt Surface}
    (step : ∀ before after, change before = .ok after → Surface.Step before after)
    (halts : ∀ before halt, change before = .error halt → Halts halt) :
    Apart Halts (Exec.onSurface id change : Exec Unit) where
  blind world contexts events := by
    rw [Exec.onSurface_run,Exec.onSurface_run]
    cases change (world.surfaces[id]?.getD {}) <;> rfl
  surfaces world := by
    rw [Exec.onSurface_run]
    cases ended : change (world.surfaces[id]?.getD {}) with
    | ok changed => exact .step world.surfaces id (step _ changed ended)
    | error halt => exact .none _
  halts world halt failed := by
    rw [Exec.onSurface_run] at failed
    cases ended : change (world.surfaces[id]?.getD {}) with
    | ok changed => rw [ended] at failed; cases failed
    | error other =>
      rw [ended] at failed
      cases failed
      exact halts _ _ ended

private theorem newSurface (elements : Table Value) : Apart Halts (Machine.newSurface elements : Exec Nat) where
  blind _ _ _ := rfl
  surfaces world := .make world.surfaces elements
  halts _ _ failed := by cases failed

end Exec.Apart

/-- What a run does to its own context: it adds results, exports and functions, whatever its hooks. -/
structure Context.Adjusts (Body : List Line → Prop) (change : Context → Context) : Prop where
  blind (run : Context) (hooks : Hooks) : change { run with hooks } = { change run with hooks }
  keeps (run : Context) : ∃ results exports functions,
    change run = { run with results, exports, functions } ∧
      ∀ name function, functions.get? name = some function →
        run.functions.get? name = some function ∨ Body function.body

/-- A relation between computations on the same heaps and frames that everything statements do
respects. -/
structure Accord (setup : Setup) where
  /-- Whether commands of the host are run; else contexts have none. -/
  hosted : Bool
  Rel : ContextId → {α : Type} → Exec α → Exec α → Prop
  /-- The halts that may occur. -/
  Halts : Halt → Prop
  /-- What is known of every context. -/
  Known : Context → Prop
  /-- The code that functions may be defined with. -/
  Body : List Line → Prop
  fault (cause : Cause) : Halts (.ofCause cause)
  crash (crash : Crash) : Halts (.crash crash)
  tooDeep : Halts .tooDeep
  endless : Halts .endless
  call (callee : Callee) (args : List Value) (heap : Heap) (halt : Halt) :
    setup.host.call callee args heap = .error halt → Halts halt
  family (family : Family) (line : Line) (names : Table Value) (heap : Heap) (halt : Halt) :
    setup.host.family family line names heap = .error halt → Halts halt
  handler (host : hosted = true) (name : String) (given : CommandContext) :
    (setup.host.handler name given).Fails Halts
  plain (unhosted : hosted = false) {run : Context} (known : Known run) : run.commands = .empty
  apart {context} {α : Type} {work : Exec α} (apart : work.Apart Halts) : Rel context work work
  bind {context} {α β : Type} {first first' : Exec α} {next next' : α → Exec β}
    (head : Rel context first first') (tail : ∀ value, Rel context (next value) (next' value)) :
    Rel context (first >>= next) (first' >>= next')
  /-- A look at the context; what is done then does not depend on its hooks. -/
  context {context} {α : Type} {next next' : Context → Exec α}
    (blind : ∀ run hooks, next { run with hooks } = next run)
    (tail : ∀ run, Known run → Rel context (next run) (next' run)) :
    Rel context (Exec.context context >>= next) (Exec.context context >>= next')
  adjust {context} {change : Context → Context} (adjusts : Context.Adjusts Body change) :
    Rel context (Exec.modifyContext context change) (Exec.modifyContext context change)
  counted {context} {α : Type} {work work' : Exec α} (inner : Rel context work work') :
    Rel context (Machine.counted context work) (Machine.counted context work')
  /-- Hooks are told of the start and the end of commands; how commands are left is not said here. -/
  start {context} (name line : String) :
    Rel context (do Machine.notify (← Exec.context context).hooks.start "start" (.start name line))
      (do Machine.notify (← Exec.context context).hooks.start "start" (.start name line))
  finish {context} (name line : String) (value : Datum) :
    Rel context (do Machine.notify (← Exec.context context).hooks.finish "end" (.finish name line value))
      (do Machine.notify (← Exec.context context).hooks.finish "end" (.finish name line value))
  stopIfInvalid {context} (value : Value) (line : Line) :
    Rel context (Machine.stopIfInvalid value line context) (Machine.stopIfInvalid value line context)
  session {context} (host : hosted = true) {options : RunOptions} (hookless : options.hooks = {})
    {work work' : FrameId → ContextId → Exec (Option Value)}
    (inner : ∀ root context, Rel context (work root context) (work' root context)) :
    Rel context (Machine.session options work) (Machine.session options work')

namespace Accord

variable {setup : Setup} (A : Accord setup) {context : ContextId}

/-- Whatever is evaluated or called runs into halts that may occur. -/
def likeness : Likeness setup.host :=
  .ofEq setup.host A.Halts (fun {cause} _ => A.fault cause) A.tooDeep A.crash A.call

private theorem onHeap [Carries α] {step : HeapM α} (same : A.likeness.Rel step step) :
    A.Rel context (Exec.onHeap step) (Exec.onHeap step) := by
  refine A.apart (.onHeap fun heap halt failed => ?_)
  have ends := (same heap heap rfl).1
  rw [failed] at ends
  cases ends with
  | error allowed => exact allowed

private theorem allocate (object : Object) :
    A.Rel context (Exec.onHeap (allocate object)) (Exec.onHeap (allocate object)) :=
  A.apart (.onHeap fun _ _ failed => by cases failed)

private theorem declare (frame : FrameId) (name : String) (value : Value) (isConst : Bool) :
    A.Rel context (Exec.onScopes (·.declare frame name value isConst))
      (Exec.onScopes (·.declare frame name value isConst)) :=
  A.apart (.onScopes fun _ _ failed => A.likeness.halts_declare failed)

private theorem assign (frame : FrameId) (name : String) (value : Value) :
    A.Rel context (Exec.onScopes (·.assign frame name value)) (Exec.onScopes (·.assign frame name value)) :=
  A.apart (.onScopes fun _ _ failed => A.likeness.halts_assign failed)

private theorem erase (frame : FrameId) (name : String) :
    A.Rel context (Exec.onScopes (·.erase frame name)) (Exec.onScopes (·.erase frame name)) := by
  refine A.apart (.onScopes fun scopes halt failed => ?_)
  unfold Scopes.erase at failed
  split at failed
  · cases failed
  · cases failed
    exact A.crash _

private theorem addExport (name source : String) (frame : FrameId) :
    A.Rel context (Machine.addExport name source frame context)
      (Machine.addExport name source frame context) :=
  A.adjust ⟨fun _ _ => rfl, fun run => ⟨_, _, run.functions, rfl, fun _ _ found => .inl found⟩⟩

private theorem pushResult (value : Value) :
    A.Rel context (Exec.modifyContext context fun run => { run with results := run.results.push value })
      (Exec.modifyContext context fun run => { run with results := run.results.push value }) :=
  A.adjust ⟨fun _ _ => rfl, fun run => ⟨_, _, run.functions, rfl, fun _ _ found => .inl found⟩⟩

private theorem define (header : FunctionHeader) {body : List Line} (allowed : A.Body body) (frame : FrameId) :
    A.Rel context (Machine.define header body frame context) (Machine.define header body frame context) := by
  refine A.bind (A.adjust ⟨fun _ _ => rfl, fun run => ⟨_, _, _, rfl, fun name function found => ?_⟩⟩) fun _ =>
    A.apart (.log _ _ _)
  rw [Table.get?_insert] at found
  split at found
  · cases found
    exact .inr allowed
  · exact .inl found

private theorem nested (overrides : Overrides) (frame : FrameId) {work work' : RunOptions → Exec α}
    (tail : ∀ options, options.hooks = {} → A.Rel context (work options) (work' options)) :
    A.Rel context (Machine.nestedOptions overrides frame context >>= work)
      (Machine.nestedOptions overrides frame context >>= work') := by
  -- the run goes on the same surface, or a new one is made for it
  obtain ⟨vars, dependencies, commands, stop, _ | elements⟩ := overrides
  · simp only [Machine.nestedOptions,bind_assoc,pure_bind]
    exact A.context (fun _ _ => rfl) fun run _ => A.bind (A.apart .scopes) fun scopes => tail _ rfl
  · simp only [Machine.nestedOptions,map_eq_pure_bind,bind_assoc,pure_bind]
    exact A.context (fun _ _ => rfl) fun run _ => A.bind (A.apart (.newSurface elements)) fun surface =>
      A.bind (A.apart .scopes) fun scopes => tail _ rfl

/-- Accords are conducts. -/
def conduct : Conduct (id : List Line → List Line) setup where
  hosted := A.hosted
  Rel context _ _ _ one two := A.Rel context one two
  Halts := A.Halts
  Alike heap heap' := heap = heap'
  Known := A.Known
  At _ := True
  On _ := True
  Fine _ := True
  Body := A.Body
  Does action := A.hosted = true ∧ action.Fails A.Halts
  Fit options := options.hooks = {}
  pure _ := A.apart (.pure _)
  throw allowed := A.apart (.throw allowed)
  bind head tail := A.bind head fun value => tail value fun _ _ => trivial
  fault _ := A.fault _
  tooDeep := A.tooDeep
  endless := A.endless
  tooLarge := A.crash _
  flat _ := trivial
  answers := @Heap.SameAnswers.of_eq
  closed _ _ _ _ _ _ _ := trivial
  heap tail := A.bind (A.apart .heap) fun heap => tail heap heap rfl
  scopes tail := A.bind (A.apart .scopes) fun scopes => tail scopes fun _ _ _ _ _ _ => trivial
  evaluate _ token := A.onHeap (A.likeness.evaluate (fun _ _ _ => trivial) token)
  hostText _ := A.apart (.askHeap fun _ _ failed => A.likeness.halts_hostText failed)
  displayText _ := A.apart (.askHeap fun _ _ failed => A.likeness.halts_displayText failed)
  method _ name := A.onHeap (A.likeness.method trivial name)
  member _ name := A.onHeap (A.likeness.member trivial name)
  call _ _ := A.onHeap (A.likeness.callValue trivial fun _ _ => trivial)
  context blind tail := A.context (fun run hooks => blind run run.stopOnInvalid hooks) fun run known => by
    have related := tail run known
    rwa [Context.recode_id] at related
  dependencies _ _ _ := trivial
  facing _ _ _ := trivial
  within _ _ _ _ := trivial
  declare _ name value _ isConst := A.declare _ name value isConst
  assign _ name value _ := A.assign _ name value
  child _ _ _ tail := A.bind (A.apart (.childFrame _)) fun frame => tail frame trivial
  pushResult _ := A.pushResult _
  exportBound name source frame _ _ _ _ _ _ _ tail failed := A.bind (A.apart .scopes) fun scopes => by
    split
    · exact A.bind (A.addExport name source frame) fun _ => tail
    · exact failed
  exportDeclared _ name value _ isConst :=
    A.bind (A.declare _ name value isConst) fun _ => A.addExport name name _
  exportAssigned _ name value _ := A.bind (A.assign _ name value) fun _ => A.addExport name name _
  define header _ allowed frame _ := A.define header allowed frame
  log _ _ _ := A.apart (.log _ _ _)
  write _ := A.apart (.write _)
  surface _ := A.apart (.surface _)
  onSurface _ _ step halts := A.apart (.onSurface step halts)
  stopIfInvalid := A.stopIfInvalid
  replaced _ line names _ := A.apart (.onHeap fun heap halt failed => A.family _ line names heap halt failed)
  allocate _ object _ := A.allocate object
  document _ response := A.onHeap (A.likeness.body
    (fun _ problem => by cases problem <;> first | exact A.tooDeep | exact A.crash _) response)
  request _ _ := A.apart (.request _)
  unreachable _ := A.crash _
  timeout _ _ _ _ := A.crash _
  plain := A.plain
  handler known name handler found given _ _ := by
    rcases Bool.eq_false_or_eq_true A.hosted with host | host
    · exact ⟨host, A.handler host handler given⟩
    · -- a context without commands has none to find
      simp [A.plain host known,Table.get?,Table.empty] at found
  gives _ := trivial
  fails does := does.2
  examine does heap _ alike := ⟨alike ▸ rfl, does.1, does.2 heap⟩
  make does := ⟨A.allocate _, fun value _ => ⟨does.1, does.2 value⟩⟩
  visible does table _ := ⟨does.1, does.2 table⟩
  hostAssign does frame _ := ⟨A.assign frame _ _, does⟩
  hostErase does frame _ := ⟨A.erase frame _, does⟩
  nested _ frame _ _ _ _ _ tail := A.nested _ frame tail
  resumes does record _ := ⟨does.1, does.2 record⟩
  session host _ fit _ _ inner := A.session host fit fun root context => inner root context trivial

theorem counts : A.conduct.Counts where
  refused := A.fault _
  counted inner := A.counted inner

theorem tells : A.conduct.Tells where
  start name line := by
    cases name with
    | none => exact A.apart (.pure ())
    | some name => exact A.start name (String.ofList line)
  finish name line value := by
    cases name with
    | none => exact A.apart (.pure ())
    | some name => exact A.bind (A.apart .heap) fun heap => A.finish name (String.ofList line) (heap.contents value)

/-- Machines that run no commands of the host agree if their tokens and their blocks do; the bodies of
functions are among the blocks. -/
theorem agree_unhosted (unhosted : A.hosted = false) {machine machine' : Machine}
    (bodies : ∀ run, A.Known run → ∀ name function, run.functions.get? name = some function → A.Body function.body)
    (code : ∀ lines, machine.code lines = machine'.code lines)
    (block : ∀ lines, A.Body lines → ∀ frame context,
      A.Rel context (machine.block lines frame context) (machine'.block lines frame context))
    (token : ∀ token frame context,
      A.Rel context (machine.token token frame context) (machine'.token token frame context)) :
    A.conduct.Agree (fun _ => True) A.Body machine machine' where
  code := code
  body given := given
  block {lines} given {frame} _ context := block lines given frame context
  token {text} _ {frame} _ context _ := token text frame context
  enter {run} known {name function} found {_} fine context _ :=
    A.conduct.enter A.counts.refused name trivial fine fun _ _ _ frame _ =>
      A.counts.counted (block function.body (bodies run known name function found) frame context)
  run hosted := by
    rw [show A.conduct.hosted = false from unhosted] at hosted
    cases hosted

/-- An accord that also respects how faults are given lines is a discipline. -/
def discipline (placed : ∀ {fault : Fault}, A.Halts (.fault fault))
    (located : ∀ {context : ContextId} {α : Type} (line : Line) {work work' : Exec α},
      A.Rel context work work' → A.Rel context (Machine.located line work) (Machine.located line work')) :
    Discipline (id : List Line → List Line) setup where
  toConduct := A.conduct
  placed _ := placed
  located line _ _ inner := located line inner

end Accord

end Inyandiko
