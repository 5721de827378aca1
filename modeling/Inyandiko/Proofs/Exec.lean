import Inyandiko.Machine.Level

/-! What the primitive computations do to the world. Each one is given by its outcome and the world
it leaves, and a sequence by the outcome and the world of its first part. -/
namespace Inyandiko

variable {ε α β : Type}

/-- A sequence that fails does so in its first part or after it. -/
theorem error_of_bind {first : Except ε α} {next : α → Except ε β} {error : ε}
    (failed : (first >>= next) = .error error) :
    first = .error error ∨ ∃ value, next value = .error error := by
  cases first with
  | error other =>
    cases failed
    exact .inl rfl
  | ok value => exact .inr ⟨value, failed⟩

/-- A sequence that succeeds does so in both its parts. -/
theorem ok_of_bind {first : Except ε α} {next : α → Except ε β} {value : β}
    (done : (first >>= next) = .ok value) : ∃ middle, first = .ok middle ∧ next middle = .ok value := by
  cases first with
  | error other => cases done
  | ok middle => exact ⟨middle, rfl, done⟩

theorem error_of_map {outcome : Except ε α} {f : α → β} {error : ε}
    (failed : outcome.map f = .error error) : outcome = .error error := by
  cases outcome with
  | ok value => cases failed
  | error other =>
    cases failed
    rfl

/-- A list that cannot be gone through has an item that fails. -/
theorem error_of_mapM {step : α → Except ε β} {items : List α} {error : ε}
    (failed : items.mapM step = .error error) : ∃ item ∈ items, step item = .error error := by
  induction items with
  | nil => cases failed
  | cons item items ih =>
    rw [List.mapM_cons] at failed
    rcases error_of_bind failed with here | ⟨value, failed⟩
    · exact ⟨item, List.mem_cons_self, here⟩
    · rcases error_of_bind failed with later | ⟨values, failed⟩
      · obtain ⟨other, member, found⟩ := ih later
        exact ⟨other, List.mem_cons_of_mem _ member, found⟩
      · cases failed

/-- What stopped a computation. -/
def stoppedBy : Except ε α → Option ε
  | .ok _ => none
  | .error error => some error

theorem eq_error_of_stoppedBy {outcome : Except ε α} {error : ε} (stopped : stoppedBy outcome = some error) :
    outcome = .error error := by
  cases outcome with
  | ok value => cases stopped
  | error other => exact congrArg Except.error (Option.some.inj stopped)

end Inyandiko

namespace Inyandiko.Exec

variable {Code α β : Type}

theorem bind_run (first : ExecOf Code α) (next : α → ExecOf Code β) (world : World Code) :
    (first >>= next) world =
      match first world with
      | (.ok value, after) => next value after
      | (.error halt, after) => (.error halt, after) := by
  simp only [bind,ExceptT.bind,ExceptT.mk,StateT.bind]
  rcases first world with ⟨_ | _, _⟩ <;> rfl

/-- A sequence does not halt in a way in which neither of its parts does. -/
theorem error_ne_of_bind {first : ExecOf Code α} {next : α → ExecOf Code β} {world : World Code} {halt : Halt}
    (head : (first world).1 ≠ .error halt) (tail : ∀ value after, (next value after).1 ≠ .error halt) :
    ((first >>= next) world).1 ≠ .error halt := by
  rw [bind_run]
  rcases found : first world with ⟨other | value, after⟩
  · rw [found] at head
    exact fun failed => head (congrArg Except.error (Except.error.inj failed))
  · exact tail value after

/-- A sequence that comes to its end goes through the end of its first part. -/
theorem ok_of_bind_run {first : ExecOf Code α} {next : α → ExecOf Code β} {world : World Code} {value : β}
    (done : ((first >>= next) world).1 = .ok value) :
    ∃ middle after, first world = (.ok middle, after) ∧ (next middle after).1 = .ok value := by
  rw [bind_run] at done
  rcases found : first world with ⟨halt | middle, after⟩
  · rw [found] at done
    cases done
  · rw [found] at done
    exact ⟨middle, after, rfl, done⟩

theorem liftExcept_run (outcome : Except Halt α) (world : World Code) :
    (liftExcept outcome : ExecOf Code α) world = (outcome, world) := by
  cases outcome <;> rfl

theorem get_run (world : World Code) : (get : ExecOf Code (World Code)) world = (.ok world, world) := rfl

theorem heap_run (world : World Code) : heap world = (.ok world.heap, world) := rfl

theorem scopes_run (world : World Code) : scopes world = (.ok world.scopes, world) := rfl

theorem attempt_run (step : ExecOf Code α) (world : World Code) :
    attempt step world = (.ok (step world).1, (step world).2) := rfl

theorem onHeap_run (step : HeapM α) (world : World Code) :
    onHeap step world =
      match step world.heap with
      | .ok (value, heap) => (.ok value, { world with heap })
      | .error halt => (.error halt, world) := by
  simp only [onHeap,bind_run,heap_run]
  change _ = match step.run world.heap with | .ok (_, _) => _ | .error _ => _
  rcases step.run world.heap with _ | ⟨_, _⟩ <;> rfl

theorem askHeap_run (question : Heap → Except Halt α) (world : World Code) :
    askHeap question world = (question world.heap, world) := by
  simp only [askHeap,bind_run,heap_run]
  cases question world.heap <;> rfl

theorem onScopes_run (change : Scopes → Except Halt Scopes) (world : World Code) :
    onScopes change world =
      match change world.scopes with
      | .ok scopes => (.ok (), { world with scopes })
      | .error halt => (.error halt, world) := by
  simp only [onScopes,bind_run,scopes_run]
  cases change world.scopes <;> rfl

end Inyandiko.Exec

namespace Inyandiko

/-- The context of a run as it is in a world. -/
def World.contextAt {Code : Type} (world : World Code) (id : ContextId) : Context Code :=
  world.contexts[id]?.getD {}

theorem World.contextAt_of_size_le {Code : Type} {world : World Code} {id : ContextId}
    (absent : world.contexts.size ≤ id) : world.contextAt id = {} := by
  rw [contextAt,Array.getElem?_eq_none absent,Option.getD_none]

namespace Exec

variable {Code : Type}

theorem context_run (id : ContextId) (world : World Code) :
    context id world = (.ok (world.contextAt id), world) := rfl

theorem modifyContext_run (id : ContextId) (change : Context Code → Context Code) (world : World Code) :
    modifyContext id change world =
      (.ok (), { world with contexts := world.contexts.modify id change }) := rfl

theorem surface_run (id : Nat) (world : World Code) :
    surface id world = (.ok (world.surfaces[id]?.getD {}), world) := rfl

theorem onSurface_run (id : Nat) (change : Surface → Except Halt Surface) (world : World Code) :
    onSurface id change world =
      match change (world.surfaces[id]?.getD {}) with
      | .ok changed => (.ok (), { world with surfaces := world.surfaces.setIfInBounds id changed })
      | .error halt => (.error halt, world) := by
  simp only [onSurface,bind_run,surface_run]
  cases change (world.surfaces[id]?.getD {}) <;> rfl

end Exec

namespace World

variable {Code : Type}

/-- A change of a context leaves alone what it does not touch, in every context. -/
theorem view_modify {σ : Type} (view : Context Code → σ) (world : World Code) (id other : ContextId)
    (change : Context Code → Context Code) (keeps : ∀ run, view (change run) = view run) :
    view (contextAt { world with contexts := world.contexts.modify id change } other) =
      view (world.contextAt other) := by
  simp only [contextAt,Array.getElem?_modify]
  split
  · cases world.contexts[other]? with
    | none => rfl
    | some run => exact keeps run
  · rfl

/-- A world with a detail of the interpreter added to the log. -/
def logged (world : World Code) (message : String) : World Code :=
  { world with log := world.log.push ⟨.debug, .interpreter, message⟩ }

/-- The world right after a run is opened: its root is the last frame, its context the last one. -/
def opened (world : World Code) (options : RunOptions) : World Code :=
  { world with
    scopes := (world.scopes.push (Machine.initialVariables options) none).2
    contexts := world.contexts.push (Machine.startContext options) }

theorem size_opened (world : World Code) (options : RunOptions) :
    (world.opened options).scopes.frames.size = world.scopes.frames.size + 1 := by
  simp [opened,Scopes.push]

private theorem contextAt_push (world : World Code) (run : Context Code) (id : ContextId) :
    contextAt { world with contexts := world.contexts.push run } id =
      if id = world.contexts.size then run else world.contextAt id := by
  simp only [contextAt,Array.getElem?_push]
  split <;> rfl

theorem contextAt_opened (world : World Code) (options : RunOptions) (id : ContextId) :
    (world.opened options).contextAt id =
      if id = world.contexts.size then Machine.startContext options else world.contextAt id :=
  contextAt_push world (Machine.startContext options) id

/-- What is left of a run in a world. -/
def record (world : World Code) (root : FrameId) (context : ContextId) (failedLine : Option String) :
    Record where
  failedLine
  vars := (world.scopes.frame root).bindings
  exports := (world.contextAt context).exports.map fun (frame, name) =>
    (world.scopes.resolve? frame name).getD .null
  results := (world.contextAt context).results.toList

end World

namespace Machine

variable {Code α : Type}

theorem notify_run (hook : Option HookMode) (slot : String) (event : Event) (world : World Code) :
    ∃ outcome events, notify hook slot event world = (outcome, { world with events }) := by
  cases hook with
  | none => exact ⟨_, world.events, rfl⟩
  | some mode => cases mode <;> exact ⟨_, world.events.push event, rfl⟩

theorem notifyStart_run (name : Option String) (line : Source.Line) (context : ContextId)
    (world : World Code) :
    ∃ outcome events, notifyStart name line context world = (outcome, { world with events }) := by
  cases name with
  | none => exact ⟨_, world.events, rfl⟩
  | some name => exact notify_run _ _ _ world

theorem notifyFinish_run (name : Option String) (line : Source.Line) (value : Value)
    (context : ContextId) (world : World Code) :
    ∃ outcome events, notifyFinish name line value context world = (outcome, { world with events }) := by
  cases name with
  | none => exact ⟨_, world.events, rfl⟩
  | some name => exact notify_run _ _ _ world

theorem stopIfInvalid_run (value : Value) (line : Source.Line) (context : ContextId)
    (world : World Code) :
    stopIfInvalid value line context world =
      (if !world.heap.isVoid value && (world.contextAt context).stopOnInvalid then
        .error (.invalid (String.ofList line)) else .ok (), world) := by
  simp only [stopIfInvalid,Exec.bind_run,Exec.heap_run,Exec.context_run]
  split <;> rfl

/-- The halt of a statement whose line is known. -/
def locate (line : Source.Line) : Halt → Halt
  | .fault fault => .fault (fault.locate (String.ofList line))
  | .tooDeep => .fault ⟨.tooDeep, some (String.ofList line)⟩
  | halt => halt

theorem located_run (line : Source.Line) (work : ExecOf Code α) (world : World Code) :
    located line work world = ((work world).1.mapError (locate line), (work world).2) := by
  simp only [located,Exec.bind_run,Exec.attempt_run]
  rcases (work world).1 with halt | value
  · cases halt <;> rfl
  · rfl

/-- A context with one more call under way. -/
def deeper (run : Context Code) : Context Code := { run with callDepth := run.callDepth + 1 }

/-- A context with one call less under way. -/
def shallower (run : Context Code) : Context Code := { run with callDepth := run.callDepth - 1 }

theorem counted_run (context : ContextId) (call : ExecOf Code α) (world : World Code) :
    counted context call world =
      let inner := call { world with contexts := world.contexts.modify context deeper }
      (inner.1, { inner.2 with contexts := inner.2.contexts.modify context shallower }) := by
  simp only [counted,Exec.bind_run,Exec.modifyContext_run,Exec.attempt_run,Exec.liftExcept_run]
  rfl

/-- A name is exported only where it is visible. -/
theorem exportBound_run (name source : String) (frame : FrameId) (context : ContextId)
    (next other : ExecOf Code α) (world : World Code) :
    (do
      if (← Exec.scopes).binds frame source then
        addExport name source frame context
        next
      else other) world =
      if world.scopes.binds frame source then
        next { world with
          contexts := world.contexts.modify context fun run =>
            { run with exports := run.exports.insert name (frame, source) } }
      else other world := by
  simp only [Exec.bind_run,Exec.scopes_run]
  split <;> rfl

/-- The options of a run inside another one; a surface may be made for it. -/
theorem nestedOptions_run (overrides : Overrides) (frame : FrameId) (context : ContextId)
    (world : World Code) :
    ∃ surface surfaces, nestedOptions overrides frame context world =
      (.ok {
        vars := (world.scopes.snapshot frame).merge overrides.vars
        dependencies := (world.contextAt context).dependencies.merge overrides.dependencies
        commands := (world.contextAt context).commands.merge overrides.commands
        stopOnInvalid := overrides.stop.getD (world.contextAt context).stopOnInvalid
        surface }, { world with surfaces }) := by
  obtain ⟨vars, dependencies, commands, stop, _ | elements⟩ := overrides
  · exact ⟨(world.contextAt context).surface, world.surfaces, rfl⟩
  · exact ⟨some world.surfaces.size, world.surfaces.push { elements }, rfl⟩

/-- A run inside another one has no hooks. -/
theorem nestedOptions_hookless (overrides : Overrides) (frame : FrameId) (context : ContextId)
    (world : World Code) :
    ∃ options surfaces, options.hooks = {} ∧
      nestedOptions overrides frame context world = (.ok options, { world with surfaces }) := by
  obtain ⟨surface, surfaces, run⟩ := nestedOptions_run overrides frame context world
  exact ⟨_, surfaces, rfl, run⟩

theorem code_levelOf (setup : Setup) (code : List Source.Line → Code)
    (block : Machine Code → Code → FrameId → ContextId → ExecOf Code (Option Value)) (depth : Nat) :
    (levelOf setup code block depth).code = code := by
  induction depth with
  | zero => rfl
  | succ depth ih => exact ih

theorem run_levelOf (setup : Setup) (code : List Source.Line → Code)
    (block : Machine Code → Code → FrameId → ContextId → ExecOf Code (Option Value)) (depth : Nat)
    (source : String) (options : RunOptions) (world : World Code) :
    (levelOf setup code block (depth + 1)).run source options world =
      let lines := Source.lines source.toList
      session options ((levelOf setup code block depth).block (code lines))
        (world.logged s!"run started: {lines.length} logical lines") := by
  simp only [levelOf,next,script,code_levelOf]
  rfl

theorem result_run (root : FrameId) (context : ContextId) (failedLine : Option String)
    (world : World Code) :
    result root context failedLine world = (.ok (world.record root context failedLine), world) := rfl

private theorem abort_run (hooks : Hooks) (halt : Halt) (world : World Code) :
    ∃ raised events, (abort hooks halt : ExecOf Code α) world = (.error raised, { world with events }) := by
  obtain ⟨outcome, events, told⟩ := notify_run hooks.error "error" (.error halt) world
  simp only [abort,Exec.bind_run,told]
  cases outcome <;> exact ⟨_, events, rfl⟩

theorem abort_ne_ok (hooks : Hooks) (halt : Halt) (world : World Code) (value : α) :
    (abort hooks halt world).1 ≠ .ok value := by
  obtain ⟨raised, events, run⟩ := abort_run (α := α) hooks halt world
  rw [run]
  exact nofun

theorem session_run (options : RunOptions)
    (work : FrameId → ContextId → ExecOf Code (Option Value)) (world : World Code) :
    session options work world =
      let inner := work world.scopes.frames.size world.contexts.size (world.opened options)
      conclude options.hooks world.scopes.frames.size world.contexts.size inner.1 inner.2 := rfl

theorem conclude_ok_run (hooks : Hooks) (root : FrameId) (context : ContextId) (signal : Option Value)
    (world : World Code) :
    conclude hooks root context (.ok signal) world =
      let count := (world.contextAt context).results.size
      (.ok (world.record root context none), world.logged s!"run finished: {count} result(s)") := rfl

theorem conclude_invalid_run (hooks : Hooks) (root : FrameId) (context : ContextId) (line : String)
    (world : World Code) :
    conclude hooks root context (.error (.invalid line)) world =
      (.ok (world.record root context (some line)),
        world.logged s!"run stopped by validation at: {line}") := rfl

/-- The end of a run changes nothing but the log and the events. -/
theorem conclude_world (hooks : Hooks) (root : FrameId) (context : ContextId)
    (outcome : Except Halt (Option Value)) (world : World Code) :
    ∃ log events, (conclude hooks root context outcome world).2 = { world with log, events } := by
  rcases outcome with halt | signal
  · cases halt with
    | invalid line => exact ⟨_, world.events, rfl⟩
    | _ =>
      obtain ⟨raised, events, run⟩ := abort_run (α := Record) hooks _ world
      exact ⟨world.log, events, congrArg Prod.snd run⟩
  · exact ⟨_, world.events, rfl⟩

private theorem conclude_record {hooks : Hooks} {root : FrameId} {context : ContextId}
    {outcome : Except Halt (Option Value)} {world : World Code} {record : Record}
    (ended : (conclude hooks root context outcome world).1 = .ok record) :
    ∃ failedLine, record =
      (conclude hooks root context outcome world).2.record root context failedLine := by
  rcases outcome with halt | signal
  · cases halt with
    | invalid line => exact ⟨some line, (Except.ok.inj ended).symm⟩
    | _ => exact absurd ended (abort_ne_ok hooks _ world record)
  · exact ⟨none, (Except.ok.inj ended).symm⟩

/-- A run without hooks stops with what stopped its work. -/
theorem conclude_error {root : FrameId} {context : ContextId} {outcome : Except Halt (Option Value)}
    {world : World Code} {halt : Halt} (failed : (conclude {} root context outcome world).1 = .error halt) :
    outcome = .error halt ∧ ∀ line, halt ≠ .invalid line := by
  rcases outcome with other | signal
  · cases other <;> cases failed <;> exact ⟨rfl, nofun⟩
  · cases failed

theorem run_record {setup : Setup} {depth : Nat} {source : String} {options : RunOptions} {world : World}
    {record : Record} (ended : ((level setup depth).run source options world).1 = .ok record) :
    ∃ failedLine, record = ((level setup depth).run source options world).2.record
      world.scopes.frames.size world.contexts.size failedLine := by
  cases depth with
  | zero => cases ended
  | succ depth => exact conclude_record ended

end Machine

/-- The level of the machine that runs the statements of scripts. -/
def Machine.outermost : Nat := Machine.levels - 1

theorem execute_run (setup : Setup) (source : String) (options : RunOptions) (world : World) :
    execute setup source options world =
      let lines := Source.lines source.toList
      Machine.session options ((Machine.level setup Machine.outermost).block lines)
        (world.logged s!"run started: {lines.length} logical lines") :=
  Machine.run_levelOf setup id (Machine.linesBlock setup) Machine.outermost source options world

end Inyandiko
