import Inyandiko.Proofs.Discipline.Level
import Inyandiko.Proofs.Likeness.Evaluation

/-! Runs on heaps that are alike. A coupling is a likeness of heaps together with what is known of the
contexts that runs belong to. Two computations are coupled when, from worlds that differ in nothing but
heaps that are alike, they end the same way in such worlds again. That is a discipline, so machines
whose blocks are coupled are coupled as a whole. -/
namespace Inyandiko

open Source

/-- A command of the host that does the same on heaps that are alike. -/
def Action.Blind (Alike : Heap → Heap → Prop) : Action → Prop
  | .done _ | .fail _ => True
  | .examine next => ∀ heap heap', Alike heap heap' → next heap' = next heap ∧ (next heap).Blind Alike
  | .make _ next => ∀ value, (next value).Blind Alike
  | .visible next => ∀ names, (next names).Blind Alike
  | .assign _ _ next | .erase _ next => next.Blind Alike
  | .run _ _ next => ∀ record, (next record).Blind Alike

/-- A likeness of heaps, and what is known of the contexts of runs. -/
structure Coupling (setup : Setup) extends Likeness setup.host where
  /-- Whether commands of the host are run; else contexts have none. -/
  hosted : Bool
  /-- What is known of every context. -/
  Known : Context → Prop
  /-- Whether the context at hand has to be there. -/
  present : Bool
  /-- The code that functions may be defined with. -/
  Body : List Line → Prop
  /-- The halts after which nothing is said any more. -/
  Excused : Halt → Prop
  fine (value : Value) : Fine value
  endless : Halts .endless
  invalid (line : String) : Halts (.invalid line)
  located {line : Line} {halt : Halt} (allowed : Halts halt) : Halts (Machine.locate line halt)
  excused {line : Line} {halt : Halt} (given : Excused halt) : Excused (Machine.locate line halt)
  failing {run : Context} (known : Known run)
    (hook : run.hooks.start = some .failing ∨ run.hooks.finish = some .failing) (message : String) :
    Halts (.crash (.hostFailure message))
  results {run : Context} (known : Known run) (results : Array Value) : Known { run with results }
  exports {run : Context} (known : Known run) (exports : Table (FrameId × String)) :
    Known { run with exports }
  functions {run : Context} (known : Known run) (name : String) {function : FunctionDef}
    (fine : Body function.body) : Known { run with functions := run.functions.insert name function }
  plain (unhosted : hosted = false) {run : Context} (known : Known run) : run.commands = .empty
  /-- Families that stand in for built-in ones do the same. -/
  family {family : Family} (given : setup.Replaces family) (line : Line) (names : Table Value) :
    HeapM.Yields Alike Halts Fine (setup.host.family family line names) (setup.host.family family line names)
  /-- Whether commands of the network are carried out. -/
  Online : Prop := setup.network = none
  -- what the network and the host bring into the heap
  unreachable (online : Online) : Halts (.crash .unreachable)
  problem (online : Online) (text : Text.Chars) (problem : Json.Problem) : Halts (Crash.ofProblem text problem)
  answers (foreign : Online ∨ hosted = true) {heap heap' : Heap} (alike : Alike heap heap')
    (object : Object) : Alike (heap.alloc object).2 (heap'.alloc object).2
  blind (host : hosted = true) (handler : String) (given : CommandContext) :
    (setup.host.handler handler given).Blind Alike
  free (host : hosted = true) :
    present = false ∧ (∀ run, Known run) ∧ (∀ halt, Halts halt) ∧ ∀ halt, ¬Excused halt

namespace Coupling

variable {setup : Setup} (K : Coupling setup) {context : ContextId} {α β : Type}

/-- A world in which the context at hand is as it should be. -/
def Holds (context : ContextId) (world : World) : Prop :=
  K.Known (world.contextAt context) ∧ (K.present = true → context < world.contexts.size)

/-- Results that differ in nothing but heaps that are alike. -/
structure Same (context : ContextId) (result result' : Except Halt α × World) : Prop where
  outcome : result'.1 = result.1
  halts (halt : Halt) : result.1 = .error halt → K.Halts halt
  alike : K.Alike result.2.heap result'.2.heap
  world : result'.2 = { result.2 with heap := result'.2.heap }
  known : K.Holds context result.2

/-- Computations that end the same way on heaps that are alike. -/
def Rel (context : ContextId) (one two : Exec α) : Prop :=
  ∀ (world : World) (heap' : Heap), K.Alike world.heap heap' → K.Holds context world →
    (∃ halt, (one world).1 = .error halt ∧ K.Excused halt) ∨
      K.Same context (one world) (two { world with heap := heap' })

private theorem aside {work : Exec α}
    (apart : ∀ (world : World) (heap' : Heap),
      work { world with heap := heap' } = ((work world).1, { (work world).2 with heap := heap' }))
    (heap : ∀ world, (work world).2.heap = world.heap)
    (known : ∀ world, K.Holds context world → K.Holds context (work world).2)
    (halts : ∀ world halt, K.Holds context world → (work world).1 = .error halt → K.Halts halt) :
    K.Rel context work work := by
  intro world heap' alike knows
  right
  refine ⟨by rw [apart], fun halt => halts world halt knows, ?_, by rw [apart], known world knows⟩
  rw [apart,heap]
  exact alike

private theorem pure (value : α) : K.Rel context (Pure.pure value) (Pure.pure value) :=
  fun _ _ alike known => .inr ⟨rfl, nofun, alike, rfl, known⟩

private theorem throw {halt : Halt} (allowed : K.Halts halt) :
    K.Rel context (throw halt : Exec α) (throw halt) :=
  fun _ _ alike known => .inr ⟨rfl, fun _ same => Except.error.inj same ▸ allowed, alike, rfl, known⟩

private theorem bind {first first' : Exec α} {next next' : α → Exec β} (head : K.Rel context first first')
    (tail : ∀ value, K.Rel context (next value) (next' value)) :
    K.Rel context (first >>= next) (first' >>= next') := by
  intro world heap' alike known
  rw [Exec.bind_run,Exec.bind_run]
  rcases head world heap' alike known with ⟨halt, failed, excused⟩ | same
  · left
    generalize first world = result at failed ⊢
    obtain ⟨outcome, after⟩ := result
    cases failed
    exact ⟨halt, rfl, excused⟩
  · generalize first world = result at same ⊢
    generalize first' { world with heap := heap' } = result' at same ⊢
    obtain ⟨outcome, after⟩ := result
    obtain ⟨outcome', after'⟩ := result'
    obtain ⟨same, halts, alike, left, known⟩ := same
    dsimp only at same halts alike left known
    subst same
    cases outcome' with
    | error halt =>
      exact .inr ⟨rfl, fun other failed => halts other (by cases failed; rfl), alike, left, known⟩
    | ok value =>
      dsimp only
      rw [left]
      exact tail value after _ alike known

private theorem onHeap [Carries α] {step step' : HeapM α} (same : K.toLikeness.Rel step step') :
    K.Rel context (Exec.onHeap step) (Exec.onHeap step') := by
  intro world heap' alike known
  right
  rw [Exec.onHeap_run,Exec.onHeap_run]
  have ends := (same world.heap heap' alike).1
  revert ends
  generalize step world.heap = result
  generalize step' heap' = result'
  rintro (⟨value, alike⟩ | allowed)
  · exact ⟨rfl, nofun, alike, rfl, known⟩
  · exact ⟨rfl, fun halt failed => Except.error.inj failed ▸ allowed, alike, rfl, known⟩

private theorem askHeap {question : Heap → Except Halt α}
    (same : ∀ heap heap', K.Alike heap heap' → question heap' = question heap)
    (halts : ∀ heap halt, question heap = .error halt → K.Halts halt) :
    K.Rel context (Exec.askHeap question) (Exec.askHeap question) := by
  intro world heap' alike known
  right
  rw [Exec.askHeap_run,Exec.askHeap_run]
  exact ⟨same _ _ alike, halts world.heap, alike, rfl, known⟩

private theorem onScopes {change : Scopes → Except Halt Scopes}
    (halts : ∀ scopes halt, change scopes = .error halt → K.Halts halt) :
    K.Rel context (Exec.onScopes change) (Exec.onScopes change) := by
  refine K.aside (fun world heap' => ?_) (fun world => ?_) (fun world known => ?_)
    fun world halt known failed => ?_
  · rw [Exec.onScopes_run,Exec.onScopes_run]
    cases change world.scopes <;> rfl
  all_goals
    rw [Exec.onScopes_run] at *
  · cases change world.scopes <;> rfl
  · cases change world.scopes <;> exact known
  · cases found : change world.scopes with
    | ok scopes => rw [found] at failed; cases failed
    | error other =>
      rw [found] at failed
      cases failed
      exact halts _ _ found

private theorem holds_modify {K : Coupling setup} (K' : Coupling setup) {world : World}
    {change : Context → Context} (present : K'.present = true → K.present = true)
    (keeps : ∀ run, K.Known run → K'.Known (change run))
    (absent : K.present = true ∨ ∀ run, K.Known run → K'.Known run) (known : K.Holds context world) :
    K'.Holds context { world with contexts := world.contexts.modify context change } := by
  refine ⟨?_, fun needed => by simpa using known.2 (present needed)⟩
  have knows := known.1
  simp only [World.contextAt,Array.getElem?_modify,if_true] at knows ⊢
  cases found : world.contexts[context]? with
  | some run =>
    simp only [found,Option.map_some,Option.getD_some] at knows ⊢
    exact keeps run knows
  | none =>
    simp only [found,Option.map_none,Option.getD_none] at knows ⊢
    rcases absent with needed | same
    · simp [known.2 needed] at found
    · exact same _ knows

private theorem modifyContext {change : Context → Context} (keeps : ∀ run, K.Known run → K.Known (change run)) :
    K.Rel context (Exec.modifyContext context change) (Exec.modifyContext context change) :=
  K.aside (fun _ _ => rfl) (fun _ => rfl)
    (fun _ known => holds_modify K (fun needed => needed) keeps (.inr fun _ knows => knows) known)
    fun _ _ _ => nofun

private theorem onSurface (id : Nat) {change : Surface → Except Halt Surface}
    (halts : ∀ before halt, change before = .error halt → K.Halts halt) :
    K.Rel context (Exec.onSurface id change) (Exec.onSurface id change) := by
  refine K.aside (fun world heap' => ?_) (fun world => ?_) (fun world known => ?_)
    fun world halt known failed => ?_
  · rw [Exec.onSurface_run,Exec.onSurface_run]
    cases change (world.surfaces[id]?.getD {}) <;> rfl
  all_goals
    rw [Exec.onSurface_run] at *
  · cases change (world.surfaces[id]?.getD {}) <;> rfl
  · cases change (world.surfaces[id]?.getD {}) <;> exact known
  · cases found : change (world.surfaces[id]?.getD {}) with
    | ok changed => rw [found] at failed; cases failed
    | error other =>
      rw [found] at failed
      cases failed
      exact halts _ _ found

private theorem notify {hook : Option HookMode} (slot : String) (event : Event)
    (halts : hook = some .failing → ∀ message, K.Halts (.crash (.hostFailure message))) :
    K.Rel context (Machine.notify hook slot event) (Machine.notify hook slot event) := by
  cases hook with
  | none => exact K.pure ()
  | some mode =>
    refine K.bind (K.aside (fun _ _ => rfl) (fun _ => rfl) (fun _ known => known) fun _ _ _ => nofun) fun _ => ?_
    cases mode with
    | quiet => exact K.pure ()
    | failing => exact K.throw (halts rfl _)

private theorem context_then {next next' : Context → Exec α}
    (tail : ∀ run, K.Known run → K.Rel context (next run) (next' run)) :
    K.Rel context (Exec.context context >>= next) (Exec.context context >>= next') :=
  fun world heap' alike known => tail (world.contextAt context) known.1 world heap' alike known

private theorem heap_then {next next' : Heap → Exec α}
    (tail : ∀ heap heap', K.Alike heap heap' → K.Rel context (next heap) (next' heap')) :
    K.Rel context (Exec.heap >>= next) (Exec.heap >>= next') :=
  fun world heap' alike known => tail world.heap heap' alike world heap' alike known

private theorem placed {fault : Fault} (other : fault.cause ≠ .callDepth) : K.Halts (.fault fault) := by
  obtain ⟨cause, _ | line⟩ := fault
  · exact K.fault other
  · have given : K.Halts (Machine.locate line.toList (.ofCause cause)) := K.located (K.fault other)
    simpa [Machine.locate,Halt.ofCause,Fault.locate] using given

private theorem located_same (line : Line) {work work' : Exec α} (inner : K.Rel context work work') :
    K.Rel context (Machine.located line work) (Machine.located line work') := by
  intro world heap' alike known
  rw [Machine.located_run,Machine.located_run]
  rcases inner world heap' alike known with ⟨halt, failed, excused⟩ | ⟨same, halts, alike, left, known⟩
  · exact .inl ⟨Machine.locate line halt, by rw [failed]; rfl, K.excused excused⟩
  · refine .inr ⟨by rw [same], fun halt failed => ?_, alike, left, known⟩
    cases ended : (work world).1 with
    | ok value => rw [ended] at failed; cases failed
    | error other =>
      rw [ended] at failed
      cases failed
      exact K.located (halts other ended)

private theorem declare (frame : FrameId) (name : String) (value : Value) (isConst : Bool) :
    K.Rel context (Exec.onScopes (·.declare frame name value isConst))
      (Exec.onScopes (·.declare frame name value isConst)) :=
  K.onScopes fun _ _ failed => K.halts_declare failed

private theorem assign (frame : FrameId) (name : String) (value : Value) :
    K.Rel context (Exec.onScopes (·.assign frame name value))
      (Exec.onScopes (·.assign frame name value)) :=
  K.onScopes fun _ _ failed => K.halts_assign failed

private theorem addExport (name source : String) (frame : FrameId) :
    K.Rel context (Machine.addExport name source frame context)
      (Machine.addExport name source frame context) :=
  K.modifyContext fun _ known => K.exports known _

private theorem log (level : Level) (component : Component) (message : String) :
    K.Rel context (Exec.log level component message) (Exec.log level component message) :=
  K.aside (fun _ _ => rfl) (fun _ => rfl) (fun _ known => known) fun _ _ _ => nofun

private theorem foreign (brought : K.Online ∨ K.hosted = true) (object : Object) :
    K.Rel context (Exec.onHeap (allocate object)) (Exec.onHeap (allocate object)) := by
  exact K.onHeap fun _ _ alike => K.allocateAt alike (K.answers brought alike object)

private theorem body (online : K.Online) (response : Response) :
    K.Rel context (Exec.onHeap response.body) (Exec.onHeap response.body) :=
  K.onHeap (K.toLikeness.body (K.problem online) response)

private theorem halts_timeout {heap : Heap} {value : Value} {crash : Crash}
    (failed : heap.toFloat value = .error crash) : crash.isSlip := by
  cases value with
  | number n => exact Likeness.halts_toFloat failed
  | bool b => cases failed
  | text s => exact Likeness.halts_readFloat failed
  | _ =>
    cases failed
    rfl

private theorem holds_free (host : K.hosted = true) (context : ContextId) (world : World) :
    K.Holds context world := by
  obtain ⟨absent, knows, -, -⟩ := K.free host
  exact ⟨knows _, fun needed => by simp [absent] at needed⟩

/-- Where commands of the host are run, it does not matter which context is at hand. -/
theorem anywhere (host : K.hosted = true) {one other : ContextId} {work work' : Exec α}
    (coupled : K.Rel one work work') : K.Rel other work work' := by
  intro world heap' alike _
  rcases coupled world heap' alike (K.holds_free host one world) with excused | same
  · exact .inl excused
  · exact .inr ⟨same.outcome, same.halts, same.alike, same.world, K.holds_free host other _⟩

private theorem conclude (host : K.hosted = true) (hooks : Hooks) (root : FrameId) (inner : ContextId)
    (outcome : Except Halt (Option Value)) :
    K.Rel context (Machine.conclude hooks root inner outcome) (Machine.conclude hooks root inner outcome) := by
  obtain ⟨-, -, allows, -⟩ := K.free host
  have still : K.Rel context (Exec.context inner) (Exec.context inner) :=
    K.aside (fun _ _ => rfl) (fun _ => rfl) (fun _ known => known) fun _ _ _ => nofun
  have result (failedLine : Option String) :
      K.Rel context (Machine.result root inner failedLine) (Machine.result root inner failedLine) :=
    K.aside (fun _ _ => rfl) (fun _ => rfl) (fun _ known => known) fun _ _ _ => nofun
  have abort (halt : Halt) : K.Rel context
      (Machine.abort hooks halt : Exec Record) (Machine.abort hooks halt) :=
    K.bind (K.notify _ _ fun _ _ => allows _) fun _ => K.throw (allows _)
  rcases outcome with halt | signal
  · cases halt with
    | invalid line => exact K.bind (K.log _ _ _) fun _ => result _
    | _ => exact abort _
  · exact K.bind still fun _ => K.bind (K.log _ _ _) fun _ => result _

private theorem session (host : K.hosted = true) (options : RunOptions)
    {work work' : FrameId → ContextId → Exec (Option Value)}
    (inner : ∀ root context, K.Rel context (work root context) (work' root context)) :
    K.Rel context (Machine.session options work) (Machine.session options work') := by
  intro world heap' alike _
  have knows := K.holds_free host
  obtain ⟨-, -, -, unexcused⟩ := K.free host
  rw [Machine.session_run,Machine.session_run]
  have body := inner world.scopes.frames.size world.contexts.size (world.opened options) heap' alike (knows _ _)
  rcases body with ⟨halt, -, excused⟩ | ⟨same, -, alike, left, -⟩
  · exact absurd excused (unexcused halt)
  · -- opening a run leaves the heap alone, so the works begin in worlds that differ in their heaps only
    change _ ∨ K.Same context _ (Machine.conclude _ _ _
      (work' world.scopes.frames.size world.contexts.size { world.opened options with heap := heap' }).1
      (work' world.scopes.frames.size world.contexts.size { world.opened options with heap := heap' }).2)
    rw [same,left]
    exact K.conclude host _ _ _ _ _ _ alike (knows _ _)

private theorem nestedOptions (host : K.hosted = true) (overrides : Overrides) (frame : FrameId) :
    K.Rel context (Machine.nestedOptions overrides frame context)
      (Machine.nestedOptions overrides frame context) := by
  have knows := K.holds_free host
  obtain ⟨-, -, allows, -⟩ := K.free host
  obtain ⟨vars, dependencies, commands, stop, _ | elements⟩ := overrides
  · exact K.aside (fun _ _ => rfl) (fun _ => rfl) (fun _ _ => knows _ _) fun _ _ _ _ => allows _
  · exact K.aside (fun _ _ => rfl) (fun _ => rfl) (fun _ _ => knows _ _) fun _ _ _ _ => allows _

/-- Couplings are disciplines. -/
def discipline : Discipline (id : List Line → List Line) setup where
  hosted := K.hosted
  Rel context _ _ _ one two := K.Rel context one two
  Halts := K.Halts
  Alike := K.Alike
  Known := K.Known
  At _ := True
  On _ := True
  Fine _ := True
  Body := K.Body
  Online := K.Online
  Does action := K.hosted = true ∧ action.Blind K.Alike
  Fit _ := K.hosted = true
  pure _ := K.pure _
  throw := K.throw
  bind head tail := K.bind head fun value => tail value fun _ _ => trivial
  placed := K.placed
  tooDeep := K.tooDeep
  endless := K.endless
  tooLarge := K.slip rfl
  flat _ := trivial
  answers alike := (K.publicly alike).sameAnswers
  closed _ _ _ _ _ _ _ := trivial
  heap := K.heap_then
  scopes tail := K.bind
    (K.aside (fun _ _ => rfl) (fun _ => rfl) (fun _ known => known) fun _ _ _ => nofun)
    fun scopes => tail scopes fun _ _ _ _ _ _ => trivial
  evaluate _ token := K.onHeap (K.evaluate (fun _ value _ => K.fine value) token)
  hostText value := K.askHeap (fun _ _ alike => (K.publicly alike).hostText value)
    fun _ _ failed => K.halts_hostText failed
  displayText value := K.askHeap (fun _ _ alike => (K.publicly alike).displayText value)
    fun _ _ failed => K.halts_displayText failed
  method _ name := K.onHeap (K.method (K.fine _) name)
  member _ name := K.onHeap (K.member (K.fine _) name)
  call _ _ := K.onHeap (K.callValue (K.fine _) fun arg _ => K.fine arg)
  context _ tail := K.context_then fun run known => by
    have related := tail run known
    rwa [Context.recode_id] at related
  dependencies _ _ _ := trivial
  facing _ _ _ := trivial
  within _ _ _ _ := trivial
  declare _ name _ _ isConst := K.declare _ name _ isConst
  assign _ name _ _ := K.assign _ name _
  child _ _ _ tail := K.bind
    (K.aside (fun _ _ => rfl) (fun _ => rfl) (fun _ known => known) fun _ _ _ => nofun)
    fun frame => tail frame trivial
  pushResult _ := K.modifyContext fun _ known => K.results known _
  exportBound name source frame _ _ _ _ _ _ _ tail failed := K.bind
    (K.aside (fun _ _ => rfl) (fun _ => rfl) (fun _ known => known) fun _ _ _ => nofun) fun scopes => by
      split
      · exact K.bind (K.addExport name source frame) fun _ => tail
      · exact failed
  exportDeclared _ name _ _ isConst := K.bind (K.declare _ name _ isConst) fun _ =>
    K.addExport name name _
  exportAssigned _ name _ _ := K.bind (K.assign _ name _) fun _ => K.addExport name name _
  define header _ allowed _ _ := K.bind
    (K.modifyContext fun _ known => K.functions known header.name allowed) fun _ => K.log _ _ _
  log := K.log
  write _ := K.aside (fun _ _ => rfl) (fun _ => rfl) (fun _ known => known) fun _ _ _ => nofun
  surface _ := K.aside (fun _ _ => rfl) (fun _ => rfl) (fun _ known => known) fun _ _ _ => nofun
  onSurface _ _ _ halts := K.onSurface _ halts
  stopIfInvalid value line := by
    refine K.heap_then fun heap heap' alike => ?_
    rw [(K.publicly alike).void]
    refine K.context_then fun run _ => ?_
    split
    · exact K.throw (K.invalid _)
    · exact K.pure ()
  located line _ _ inner := K.located_same line inner
  replaced given line names _ := K.onHeap (K.family given line names)
  allocate online object _ := K.foreign (.inl online) object
  document online response := K.body online response
  request _ _ := K.aside (fun _ _ => rfl) (fun _ => rfl) (fun _ known => known) fun _ _ _ => nofun
  unreachable := K.unreachable
  timeout _ _ _ failed := K.slip (halts_timeout failed)
  plain := K.plain
  handler known name handler found given _ _ := by
    rcases Bool.eq_false_or_eq_true K.hosted with host | host
    · exact ⟨host, K.blind host handler given⟩
    · simp [K.plain host known,Table.get?,Table.empty] at found
  gives _ := trivial
  fails does := (K.free does.1).2.2.1 _
  examine does _ _ alike := ⟨(does.2 _ _ alike).1, does.1, (does.2 _ _ alike).2⟩
  make does := ⟨K.foreign (.inr does.1) _, fun value _ => ⟨does.1, does.2 value⟩⟩
  visible does table _ := ⟨does.1, does.2 table⟩
  hostAssign does frame _ := ⟨K.assign frame _ _, does⟩
  hostErase does _ _ := ⟨K.onScopes fun _ _ _ => (K.free does.1).2.2.1 _, does⟩
  nested does frame _ _ _ _ _ tail := K.bind (K.nestedOptions does.1 _ frame) fun options => tail options does.1
  resumes does record _ := ⟨does.1, does.2 record⟩
  session host options _ _ _ inner := K.session host options fun root context => inner root context trivial

theorem tells : K.discipline.Tells where
  start name line := by
    cases name with
    | none => exact K.pure ()
    | some name => exact K.context_then fun run known => K.notify _ _ fun hook => K.failing known (.inl hook)
  finish name line value := by
    cases name with
    | none => exact K.pure ()
    | some name =>
      refine K.heap_then fun heap heap' alike => ?_
      dsimp only
      rw [(K.publicly alike).sameAnswers.contents]
      exact K.context_then fun run known => K.notify _ _ fun hook => K.failing known (.inr hook)

/-- A call under way is counted between couplings that differ in what they know of contexts. -/
theorem counted {K : Coupling setup} (K' : Coupling setup) (alike : K'.Alike = K.Alike)
    (halts : ∀ halt, K'.Halts halt → K.Halts halt) (excused : ∀ halt, K'.Excused halt → K.Excused halt)
    (present : K'.present = K.present)
    (absent : K.present = true ∨ ∀ run, K.Known run ↔ K'.Known run)
    (deeper : ∀ run, K.Known run → K'.Known (Machine.deeper run))
    (shallower : ∀ run, K'.Known run → K.Known (Machine.shallower run))
    {work work' : Exec α} (inner : K'.Rel context work work') :
    K.Rel context (Machine.counted context work) (Machine.counted context work') := by
  intro world heap' isAlike known
  rw [Machine.counted_run,Machine.counted_run]
  have begun : K'.Holds context { world with contexts := world.contexts.modify context Machine.deeper } :=
    holds_modify K' (fun needed => present ▸ needed) deeper
      (absent.imp_right fun same run => (same run).mp) known
  rcases inner _ heap' (alike ▸ isAlike) begun with ⟨halt, failed, given⟩ | ⟨same, allowed, isAlike, left, known⟩
  · exact .inl ⟨halt, failed, excused halt given⟩
  · refine .inr ⟨same, fun halt failed => halts halt (allowed halt failed), alike ▸ isAlike, ?_, ?_⟩
    · simp only at left ⊢
      rw [left]
    · exact holds_modify K (fun needed => present ▸ needed) shallower
        (absent.imp (fun needed => present ▸ needed) fun same run => (same run).mpr) known

/-- Where nothing is known of calls under way, counting them keeps computations coupled. -/
theorem counts (refused : K.Halts (.ofCause .callDepth)) (deeper : ∀ run, K.Known run → K.Known (Machine.deeper run))
    (shallower : ∀ run, K.Known run → K.Known (Machine.shallower run)) : K.discipline.Counts where
  refused := refused
  counted inner := counted K rfl (fun _ allowed => allowed) (fun _ given => given) rfl
    (.inr fun _ => .rfl) deeper shallower inner

end Coupling

end Inyandiko
