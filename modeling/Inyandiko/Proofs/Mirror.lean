import Inyandiko.Proofs.InStep

/-! Computations that take the same steps over different code mirror each other: they have the same
outcome, and the worlds they leave are the same but for the code of the functions. -/
namespace Inyandiko

open Source

variable {Code Code' : Type}

/-- A world with the bodies of all functions as other code. -/
def World.recode (recode : Code → Code') (world : World Code) : World Code' where
  heap := world.heap
  scopes := world.scopes
  contexts := world.contexts.map (Context.recode recode)
  surfaces := world.surfaces
  output := world.output
  log := world.log
  requests := world.requests
  events := world.events

namespace World

theorem contextAt_recode (recode : Code → Code') (world : World Code) (id : ContextId) :
    (world.recode recode).contextAt id = (world.contextAt id).recode recode := by
  simp only [contextAt,World.recode,Array.getElem?_map]
  cases world.contexts[id]? <;> rfl

theorem modify_recode (recode : Code → Code') (world : World Code) (id : ContextId)
    {change : Context Code → Context Code} {change' : Context Code' → Context Code'}
    (same : ∀ run, change' (run.recode recode) = (change run).recode recode) :
    (world.recode recode).contexts.modify id change' =
      (world.contexts.modify id change).map (Context.recode recode) := by
  apply Array.ext_getElem?
  intro other
  simp only [World.recode,Array.getElem?_modify,Array.getElem?_map]
  split
  · cases world.contexts[other]? with
    | none => rfl
    | some run => exact congrArg some (same run)
  · rfl

private theorem opened_recode (recode : Code → Code') (world : World Code) (options : RunOptions) :
    (world.recode recode).opened options = (world.opened options).recode recode := by
  simp only [opened,World.recode,Array.map_push]
  rfl

theorem record_recode (recode : Code → Code') (world : World Code) (root : FrameId) (context : ContextId)
    (failedLine : Option String) :
    (world.recode recode).record root context failedLine = world.record root context failedLine := by
  simp only [record,contextAt_recode]
  rfl

/-- Recoding in two steps. -/
theorem recode_recode {Code'' : Type} (first : Code → Code') (second : Code' → Code'') (world : World Code) :
    (world.recode first).recode second = world.recode (second ∘ first) := by
  have functions (run : Context Code) : (run.recode first).recode second = run.recode (second ∘ first) := by
    simp only [Context.recode,Table.map_map]
    rfl
  simp only [World.recode,Array.map_map]
  congr 2
  funext run
  exact functions run

theorem recode_id (world : World Code) : world.recode id = world := by
  have functions : Context.recode (id : Code → Code) = id := funext Context.recode_id
  simp only [World.recode,functions,Array.map_id]

end World

/-- Two computations with the same outcome that leave the same world, but for the code. -/
def Mirrors {α : Type} (recode : Code → Code') (one : ExecOf Code α) (two : ExecOf Code' α) : Prop :=
  ∀ world, two (world.recode recode) = ((one world).1, (one world).2.recode recode)

namespace Mirrors

variable {α β : Type} {recode : Code → Code'}

private theorem bind {first : ExecOf Code α} {first' : ExecOf Code' α} {next : α → ExecOf Code β}
    {next' : α → ExecOf Code' β} (head : Mirrors recode first first')
    (tail : ∀ value, Mirrors recode (next value) (next' value)) :
    Mirrors recode (first >>= next) (first' >>= next') := by
  intro world
  rw [Exec.bind_run,Exec.bind_run,head world]
  rcases first world with ⟨halt | value, after⟩
  · rfl
  · exact tail value after

private theorem context {next : Context Code → ExecOf Code α} {next' : Context Code' → ExecOf Code' α}
    (id : ContextId) (tail : ∀ run, Mirrors recode (next run) (next' (run.recode recode))) :
    Mirrors recode (Exec.context id >>= next) (Exec.context id >>= next') := by
  intro world
  rw [Exec.bind_run,Exec.bind_run,Exec.context_run,Exec.context_run,World.contextAt_recode]
  exact tail _ world

theorem modifyContext (id : ContextId) {change : Context Code → Context Code}
    {change' : Context Code' → Context Code'}
    (same : ∀ run, change' (run.recode recode) = (change run).recode recode) :
    Mirrors recode (Exec.modifyContext id change) (Exec.modifyContext id change') := by
  intro world
  rw [Exec.modifyContext_run,Exec.modifyContext_run,World.modify_recode recode world id same]
  rfl

private theorem notify (hook : Option HookMode) (slot : String) (event : Event) :
    Mirrors recode (Machine.notify hook slot event) (Machine.notify hook slot event) := by
  intro world
  cases hook with
  | none => rfl
  | some mode => cases mode <;> rfl

private theorem notifyStart (name : Option String) (line : Line) (id : ContextId) :
    Mirrors recode (Machine.notifyStart name line id) (Machine.notifyStart name line id) := by
  cases name with
  | none => exact fun _ => rfl
  | some name => exact context id fun _ => notify _ _ _

private theorem notifyFinish (name : Option String) (line : Line) (value : Value) (id : ContextId) :
    Mirrors recode (Machine.notifyFinish name line value id) (Machine.notifyFinish name line value id) := by
  cases name with
  | none => exact fun _ => rfl
  | some name =>
    refine bind (fun _ => rfl : Mirrors recode Exec.heap Exec.heap) fun heap => ?_
    exact context id fun _ => notify _ _ _

private theorem stopIfInvalid (value : Value) (line : Line) (id : ContextId) :
    Mirrors recode (Machine.stopIfInvalid value line id) (Machine.stopIfInvalid value line id) := by
  intro world
  rw [Machine.stopIfInvalid_run,Machine.stopIfInvalid_run,World.contextAt_recode]
  rfl

private theorem located (line : Line) {work : ExecOf Code α} {work' : ExecOf Code' α}
    (inner : Mirrors recode work work') :
    Mirrors recode (Machine.located line work) (Machine.located line work') := by
  intro world
  rw [Machine.located_run,Machine.located_run,inner world]

private theorem attempt {work : ExecOf Code α} {work' : ExecOf Code' α} (inner : Mirrors recode work work') :
    Mirrors recode (Exec.attempt work) (Exec.attempt work') := by
  intro world
  rw [Exec.attempt_run,Exec.attempt_run,inner world]

private theorem pure (value : α) : Mirrors recode (Pure.pure value) (Pure.pure value) := fun _ => rfl

private theorem throw (halt : Halt) : Mirrors (α := α) recode (throw halt) (throw halt) := fun _ => rfl

private theorem liftExcept (outcome : Except Halt α) :
    Mirrors recode (liftExcept outcome) (liftExcept outcome) := by
  cases outcome with
  | ok value => exact pure value
  | error halt => exact throw halt

private theorem log (level : Level) (component : Component) (message : String) :
    Mirrors recode (Exec.log level component message) (Exec.log level component message) := fun _ => rfl

private theorem onHeap (step : HeapM α) : Mirrors recode (Exec.onHeap step) (Exec.onHeap step) := by
  intro world
  have same : (world.recode recode).heap = world.heap := rfl
  rw [Exec.onHeap_run,Exec.onHeap_run,same]
  rcases step world.heap with _ | ⟨_, _⟩ <;> rfl

private theorem onScopes (change : Scopes → Except Halt Scopes) :
    Mirrors recode (Exec.onScopes change) (Exec.onScopes change) := by
  intro world
  have same : (world.recode recode).scopes = world.scopes := rfl
  rw [Exec.onScopes_run,Exec.onScopes_run,same]
  cases change world.scopes <;> rfl

private theorem onSurface (id : Nat) (change : Surface → Except Halt Surface) :
    Mirrors recode (Exec.onSurface id change) (Exec.onSurface id change) := by
  intro world
  have same : (world.recode recode).surfaces = world.surfaces := rfl
  rw [Exec.onSurface_run,Exec.onSurface_run,same]
  cases change (world.surfaces[id]?.getD {}) <;> rfl

private theorem nestedOptions (overrides : Overrides) (frame : FrameId) (id : ContextId) :
    Mirrors recode (Machine.nestedOptions overrides frame id) (Machine.nestedOptions overrides frame id) := by
  refine context id fun run => ?_
  cases overrides.elements with
  | some elements => exact fun _ => rfl
  | none => exact fun _ => rfl

private theorem counted (context : ContextId) {call : ExecOf Code α} {call' : ExecOf Code' α}
    (inner : Mirrors recode call call') :
    Mirrors recode (Machine.counted context call) (Machine.counted context call') := by
  refine bind (modifyContext context fun _ => rfl) fun _ => (attempt inner).bind fun outcome => ?_
  exact bind (modifyContext context fun _ => rfl) fun _ => liftExcept outcome

private theorem result (root : FrameId) (context : ContextId) (failedLine : Option String) :
    Mirrors recode (Machine.result root context failedLine) (Machine.result root context failedLine) := by
  intro world
  rw [Machine.result_run,Machine.result_run,World.record_recode]

private theorem abort (hooks : Hooks) (halt : Halt) :
    Mirrors (α := α) recode (Machine.abort hooks halt) (Machine.abort hooks halt) :=
  (notify hooks.error "error" (.error halt)).bind fun _ => throw halt

private theorem conclude (hooks : Hooks) (root : FrameId) (context : ContextId)
    (outcome : Except Halt (Option Value)) :
    Mirrors recode (Machine.conclude hooks root context outcome)
      (Machine.conclude hooks root context outcome) := by
  cases outcome with
  | ok signal =>
    exact Mirrors.context context fun _ => (log _ _ _).bind fun _ => result root context none
  | error halt =>
    cases halt with
    | invalid line => exact (log _ _ _).bind fun _ => result root context (some line)
    | _ => exact abort hooks _

theorem session (options : RunOptions) {work : FrameId → ContextId → ExecOf Code (Option Value)}
    {work' : FrameId → ContextId → ExecOf Code' (Option Value)}
    (inner : ∀ root context, Mirrors recode (work root context) (work' root context)) :
    Mirrors recode (Machine.session options work) (Machine.session options work') := by
  have opening : Mirrors recode (Machine.openRun options) (Machine.openRun options) := by
    intro world
    change (Except.ok (_, (world.contexts.map _).size), (world.recode recode).opened options) = _
    rw [Array.size_map,World.opened_recode]
    rfl
  exact opening.bind fun (root, context) => (attempt (inner root context)).bind fun outcome =>
    conclude options.hooks root context outcome

end Mirrors

/-- What takes the same steps is mirrored. -/
theorem InStep.mirrors {recode : Code → Code'} {context : ContextId} {home : Option FrameId} {α : Type}
    {one : ExecOf Code α} {two : ExecOf Code' α} (inStep : InStep recode true context home one two) :
    Mirrors recode one two := by
  induction inStep with
  | pure value => exact .pure value
  | throw halt => exact .throw halt
  | bind head tail first rest => exact first.bind rest
  | heap | scopes | log | write | request | surface => exact fun _ => rfl
  | child parent tail rest => exact .bind (fun _ => rfl) rest
  | onHeap step => exact .onHeap step
  | context blind tail rest => exact .context _ fun run => rest run fun unhosted => Bool.noConfusion unhosted
  | assign | declare | hostAssign | hostErase => exact .onScopes _
  | pushResult | addExport => exact .modifyContext _ fun _ => rfl
  | define header body frame =>
    exact .bind (.modifyContext _ fun run => by
      simp only [Context.recode,Table.map_insert]
      rfl) fun _ => .log _ _ _
  | onSurface id step => exact .onSurface id _
  | notifyStart name line => exact .notifyStart name line _
  | notifyFinish name line value => exact .notifyFinish name line value _
  | stopIfInvalid value line => exact .stopIfInvalid value line _
  | located line inner same => exact .located line same
  | counted inner same => exact .counted _ same
  | nestedOptions allowed overrides frame => exact .nestedOptions overrides frame _
  | session allowed options inner same => exact .session options same

end Inyandiko
