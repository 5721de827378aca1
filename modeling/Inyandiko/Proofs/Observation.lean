import Inyandiko.Host.Kit
import Inyandiko.Proofs.Accord
import Inyandiko.Proofs.Lifecycle

/-! Hooks only observe. A run whose hooks do not fail ends the same way as the run without hooks, in a
world that differs in nothing but hooks and the events they were told. Both are compared with the run in
a world where all hooks and events are taken away. The hook for errors is told what a stopped run ends
with, and nothing else. -/
namespace Inyandiko

open Source

variable {α β : Type}

/-- Hooks that do not fail. -/
structure Hooks.Calm (hooks : Hooks) : Prop where
  start : hooks.start ≠ some .failing
  finish : hooks.finish ≠ some .failing
  error : hooks.error ≠ some .failing

private theorem Hooks.calm_none : ({} : Hooks).Calm := ⟨by simp, by simp, by simp⟩

/-- A context without its hooks. -/
def Context.unwatched (run : Context) : Context := { run with hooks := {} }

/-- What a hook for errors is told. -/
def Event.error? : Event → Option Halt
  | .error halt => some halt
  | .start .. | .finish .. => none

namespace World

/-- A world without hooks and without the events they were told. -/
def unwatched (world : World) : World :=
  { world with contexts := world.contexts.map Context.unwatched, events := #[] }

/-- The halts that hooks for errors were told. -/
def errors (world : World) : List Halt := world.events.toList.filterMap Event.error?

private theorem contextAt_unwatched (world : World) (id : ContextId) :
    world.unwatched.contextAt id = (world.contextAt id).unwatched := by
  simp only [contextAt,unwatched,Array.getElem?_map]
  cases world.contexts[id]? <;> rfl

private theorem unwatched_modify (world : World) (id : ContextId) (change : Context → Context)
    (blind : ∀ run, (change run).unwatched = change run.unwatched) :
    unwatched { world with contexts := world.contexts.modify id change } =
      { world.unwatched with contexts := world.unwatched.contexts.modify id change } := by
  have same : (world.contexts.modify id change).map Context.unwatched =
      (world.contexts.map Context.unwatched).modify id change := by
    refine Array.ext_getElem? fun other => ?_
    simp only [Array.getElem?_map,Array.getElem?_modify]
    split
    · cases world.contexts[other]? with
      | none => rfl
      | some run => exact congrArg some (blind run)
    · rfl
  simp only [unwatched,same]

private theorem unwatched_opened (world : World) (options : RunOptions) :
    (world.opened options).unwatched = world.unwatched.opened { options with hooks := {} } := by
  simp only [unwatched,opened,Array.map_push]
  rfl

private theorem errors_tell (world : World) (word : List Event) :
    (world.tell word).errors = world.errors ++ word.filterMap Event.error? := by
  simp [errors,tell]

end World

/-- A computation and its like in a world without hooks: both end the same way. Hooks for errors were told
nothing on the way. -/
structure Watched (world : World) (ending ending' : Except Halt α × World) : Prop where
  same : ending' = (ending.1, ending.2.unwatched)
  contexts : world.contexts.size ≤ ending.2.contexts.size
  hooks : ∀ id < world.contexts.size, (ending.2.contextAt id).hooks = (world.contextAt id).hooks
  errors : ending.2.errors = world.errors

/-- Computations that end the same way with hooks that do not fail as without hooks. -/
def WatchedBy (context : ContextId) (one two : Exec α) : Prop :=
  ∀ world : World, context < world.contexts.size → (world.contextAt context).hooks.Calm →
    Watched world (one world) (two world.unwatched)

namespace WatchedBy

variable {context : ContextId}

private theorem apart {work : Exec α} (apart : work.Apart fun _ => True) : WatchedBy context work work := by
  intro world _ _
  have contexts := apart.contexts world
  refine ⟨?_, Nat.le_of_eq (congrArg Array.size contexts.symm), fun id _ => ?_, ?_⟩
  · have blind := apart.blind world (world.contexts.map Context.unwatched) #[]
    rw [← contexts] at blind
    rw [World.unwatched,← contexts]
    exact blind
  · rw [World.contextAt,World.contextAt,contexts]
  · rw [World.errors,World.errors,apart.events]

private theorem bind {first first' : Exec α} {next next' : α → Exec β} (head : WatchedBy context first first')
    (tail : ∀ value, WatchedBy context (next value) (next' value)) :
    WatchedBy context (first >>= next) (first' >>= next') := by
  intro world inside calm
  have begun := head world inside calm
  rw [Exec.bind_run,Exec.bind_run,begun.same]
  generalize first world = ending at begun ⊢
  obtain ⟨halt | value, after⟩ := ending
  · exact ⟨rfl, begun.contexts, begun.hooks, begun.errors⟩
  · have ended := tail value after (Nat.lt_of_lt_of_le inside begun.contexts) (begun.hooks context inside ▸ calm)
    exact ⟨ended.same, Nat.le_trans begun.contexts ended.contexts,
      fun id old => (ended.hooks id (Nat.lt_of_lt_of_le old begun.contexts)).trans (begun.hooks id old),
      ended.errors.trans begun.errors⟩

private theorem context_then {next next' : Context → Exec α} (blind : ∀ run hooks, next { run with hooks } = next run)
    (tail : ∀ run, WatchedBy context (next run) (next' run)) :
    WatchedBy context (Exec.context context >>= next) (Exec.context context >>= next') := by
  intro world inside calm
  rw [Exec.bind_run,Exec.bind_run,Exec.context_run,Exec.context_run,World.contextAt_unwatched]
  -- the second one sees the context without its hooks, and what follows cannot tell
  have related := tail (world.contextAt context).unwatched world inside calm
  rwa [Context.unwatched,blind] at related

private theorem modifyContext {change : Context → Context}
    (blind : ∀ run hooks, change { run with hooks } = { change run with hooks }) :
    WatchedBy context (Exec.modifyContext context change) (Exec.modifyContext context change) := by
  intro world inside calm
  refine ⟨?_, Nat.le_of_eq Array.size_modify.symm, fun id _ => ?_, rfl⟩
  · rw [Exec.modifyContext_run,Exec.modifyContext_run,World.unwatched_modify]
    exact fun run => (blind run {}).symm
  · exact World.view_modify (·.hooks) world context id change fun run =>
      congrArg (·.hooks) (blind run run.hooks)

private theorem notify {hook : Hooks → Option HookMode} (none : hook {} = none)
    (calm : ∀ hooks : Hooks, hooks.Calm → hook hooks ≠ some .failing) (slot : String) {event : Event}
    (other : event.error? = .none) :
    WatchedBy context (do Machine.notify (hook (← Exec.context context).hooks) slot event)
      (do Machine.notify (hook (← Exec.context context).hooks) slot event) := by
  intro world inside calmly
  rw [Exec.bind_run,Exec.bind_run,Exec.context_run,Exec.context_run]
  dsimp only
  rw [Machine.notify_calm (calm _ calmly),World.contextAt_unwatched,Context.unwatched,none]
  refine ⟨rfl, Nat.le_refl _, fun _ _ => rfl, ?_⟩
  rw [World.errors_tell]
  cases hook (world.contextAt context).hooks <;> simp [other]

private theorem located (line : Line) {work work' : Exec α} (inner : WatchedBy context work work') :
    WatchedBy context (Machine.located line work) (Machine.located line work') := by
  intro world inside calm
  have ended := inner world inside calm
  rw [Machine.located_run,Machine.located_run,ended.same]
  exact ⟨rfl, ended.contexts, ended.hooks, ended.errors⟩

private theorem counted {work work' : Exec α} (inner : WatchedBy context work work') :
    WatchedBy context (Machine.counted context work) (Machine.counted context work') := by
  intro world inside calm
  have deeper (id : ContextId) := World.view_modify (·.hooks) world context id Machine.deeper fun _ => rfl
  have ended := inner { world with contexts := world.contexts.modify context Machine.deeper }
    (by rwa [Array.size_modify]) (deeper context ▸ calm)
  rw [World.unwatched_modify world context Machine.deeper fun _ => rfl] at ended
  rw [Machine.counted_run,Machine.counted_run]
  dsimp only
  generalize work { world with contexts := world.contexts.modify context Machine.deeper } = ending at ended ⊢
  -- counters go up and down alike with hooks and without
  have shallower (id : ContextId) :=
    World.view_modify (·.hooks) ending.2 context id Machine.shallower fun _ => rfl
  have sized := ended.contexts
  rw [Array.size_modify] at sized
  refine ⟨?_, by rwa [Array.size_modify], fun id old => ?_, ended.errors⟩
  · rw [ended.same,World.unwatched_modify ending.2 context Machine.shallower fun _ => rfl]
  · exact (shallower id).trans ((ended.hooks id (by rwa [Array.size_modify])).trans (deeper id))

private theorem opened {options : RunOptions} (calm : options.hooks.Calm)
    {work work' : FrameId → ContextId → Exec (Option Value)}
    (inner : ∀ root context, WatchedBy context (work root context) (work' root context)) (world : World) :
    Watched (world.opened options)
      (work world.scopes.frames.size world.contexts.size (world.opened options))
      (work' world.scopes.frames.size world.contexts.size
        (world.unwatched.opened { options with hooks := {} })) := by
  rw [← World.unwatched_opened]
  refine inner _ _ _ (by simp [World.opened]) ?_
  rw [World.contextAt_opened,if_pos rfl]
  exact calm

end WatchedBy

/-- The end of a run with hooks, and of the same run without hooks. The hook for errors is told what the
run is stopped with. -/
structure Observed (hooks : Hooks) (world : World) (ending plain : Except Halt Record × World) : Prop where
  same : plain = (ending.1, ending.2.unwatched)
  returned (record : Record) : ending.1 = .ok record → ending.2.errors = world.errors
  raised (halt : Halt) : ending.1 = .error halt →
    ending.2.errors = world.errors ++ hooks.error.toList.map fun _ => halt

private theorem Machine.conclude_watched {hooks : Hooks} (calm : hooks.Calm) (root : FrameId) (context : ContextId)
    (outcome : Except Halt (Option Value)) (world : World) :
    Observed hooks world (conclude hooks root context outcome world)
      (conclude {} root context outcome world.unwatched) := by
  have record (failedLine : Option String) :
      world.unwatched.record root context failedLine = world.record root context failedLine := by
    simp only [World.record,World.contextAt_unwatched]
    rfl
  have aborted (halt : Halt) : (abort hooks halt : Exec Record) world =
      (.error halt, world.tell (hooks.error.toList.map fun _ => .error halt)) := by
    rw [abort,Exec.bind_run,notify_calm calm.error]
    rfl
  have told (halt : Halt) : (world.tell (hooks.error.toList.map fun _ => .error halt)).errors =
      world.errors ++ hooks.error.toList.map fun _ => halt := by
    rw [World.errors_tell]
    cases hooks.error <;> rfl
  rcases outcome with halt | signal
  · cases halt with
    | invalid line =>
      rw [conclude_invalid_run,conclude_invalid_run,record]
      exact ⟨rfl, fun _ _ => rfl, fun _ failed => by cases failed⟩
    | _ =>
      simp only [conclude]
      rw [aborted]
      refine ⟨rfl, fun _ ended => ?_, fun _ failed => ?_⟩
      · cases ended
      · cases failed
        exact told _
  · rw [conclude_ok_run,conclude_ok_run]
    dsimp only
    rw [record,World.contextAt_unwatched]
    exact ⟨rfl, fun _ _ => rfl, fun _ failed => by cases failed⟩

private theorem WatchedBy.session_run {options : RunOptions} (calm : options.hooks.Calm)
    {work work' : FrameId → ContextId → Exec (Option Value)}
    (inner : ∀ root context, WatchedBy context (work root context) (work' root context)) (world : World) :
    Observed options.hooks world (Machine.session options work world)
      (Machine.session { options with hooks := {} } work' world.unwatched) := by
  have ended := WatchedBy.opened calm inner world
  have sizes : world.unwatched.contexts.size = world.contexts.size := Array.size_map
  rw [Machine.session_run,Machine.session_run,sizes]
  change Observed _ _ _ (Machine.conclude {} world.scopes.frames.size _
    (work' world.scopes.frames.size _ _).1 (work' world.scopes.frames.size _ _).2)
  rw [ended.same]
  have last := Machine.conclude_watched calm world.scopes.frames.size world.contexts.size
    (work world.scopes.frames.size world.contexts.size (world.opened options)).1
    (work world.scopes.frames.size world.contexts.size (world.opened options)).2
  have errors : _ = world.errors := ended.errors
  exact ⟨last.same, fun record done => (last.returned record done).trans errors,
    fun halt failed => (last.raised halt failed).trans (by rw [errors])⟩

private theorem WatchedBy.session {context : ContextId} {options : RunOptions} (hookless : options.hooks = {})
    {work work' : FrameId → ContextId → Exec (Option Value)}
    (inner : ∀ root context, WatchedBy context (work root context) (work' root context)) :
    WatchedBy context (Machine.session options work) (Machine.session options work') := by
  intro world inside calm
  have bare : { options with hooks := {} } = options := by rw [← hookless]
  have calmly : options.hooks.Calm := hookless ▸ Hooks.calm_none
  have ended := WatchedBy.opened calmly inner world
  have same := (WatchedBy.session_run calmly inner world).same
  rw [bare] at same
  obtain ⟨log, left⟩ : ∃ log, (Machine.session options work world).2 = { (work world.scopes.frames.size
      world.contexts.size (world.opened options)).2 with log } := by
    rw [Machine.session_run,hookless]
    exact Machine.conclude_hookless _ _ _ _
  refine ⟨same, ?_, fun id old => ?_, ?_⟩
  · rw [left]
    exact Nat.le_trans (by simp [World.opened]) ended.contexts
  · have older : id < (world.opened options).contexts.size := by
      rw [World.opened,Array.size_push]
      exact Nat.lt_succ_of_lt old
    rw [left]
    refine (ended.hooks id older).trans ?_
    rw [World.contextAt_opened,if_neg (Nat.ne_of_lt old)]
  · rw [left]
    exact ended.errors

/-- To be watched by hooks that do not fail makes no difference to anything that machines do. -/
def Accord.watching (setup : Setup) : Accord setup where
  hosted := true
  Rel context _ one two := WatchedBy context one two
  Halts _ := True
  Known _ := True
  Body _ := True
  fault _ := trivial
  crash _ := trivial
  tooDeep := trivial
  endless := trivial
  call _ _ _ _ _ := trivial
  family _ _ _ _ _ _ := trivial
  handler _ := setup.handler_fails_anyhow
  plain := Context.plain_of_hosted
  apart := .apart
  bind := .bind
  context blind tail := .context_then blind fun run => tail run trivial
  adjust adjusts := .modifyContext adjusts.blind
  counted := .counted
  start _ _ := .notify rfl (fun _ calm => calm.start) "start" rfl
  finish _ _ _ := .notify rfl (fun _ calm => calm.finish) "end" rfl
  stopIfInvalid value line := by
    refine WatchedBy.bind (.apart .heap) fun heap => WatchedBy.context_then (fun _ _ => rfl) fun run => ?_
    split
    · exact .apart (.throw trivial)
    · exact .apart (.pure ())
  session _ _ hookless _ _ inner := .session hookless inner

private theorem Machine.block_watched (setup : Setup) (depth : Nat) (lines : List Line) (frame : FrameId)
    (context : ContextId) :
    WatchedBy context ((level setup depth).block lines frame context)
      ((level setup depth).block lines frame context) :=
  (((Accord.watching setup).discipline trivial fun line => .located line).agree_level
    (Accord.watching setup).counts (Accord.watching setup).tells (fun _ => trivial) id depth).block
    trivial trivial context

private theorem execute_watched (setup : Setup) (source : String) {options : RunOptions} (calm : options.hooks.Calm)
    (world : World) :
    Observed options.hooks world (execute setup source options world)
      (execute setup source { options with hooks := {} } world.unwatched) := by
  rw [execute_run,execute_run]
  have last := WatchedBy.session_run calm
    (Machine.block_watched setup Machine.outermost (Source.lines source.toList))
    (world.logged s!"run started: {(Source.lines source.toList).length} logical lines")
  exact ⟨last.same, last.returned, last.raised⟩

/-- Hooks only observe: whatever the script and the options, a run with hooks that do not fail ends with
the same record or the same halt as the run without hooks, and leaves the same heap, frames, contexts,
surfaces, output, log and requests. The hook for errors is told exactly the halt of a run that is
stopped by one, and nothing if the run gives a record, also if a validation ended it. -/
theorem hooks_only_observe (setup : Setup) (source : String) (options : RunOptions) (hooks : Hooks)
    (calm : hooks.Calm) (world : World) :
    let watched := execute setup source { options with hooks } world
    let plain := execute setup source { options with hooks := {} } world
    watched.1 = plain.1 ∧ watched.2.unwatched = plain.2.unwatched ∧
      (∀ record, watched.1 = .ok record → watched.2.errors = world.errors) ∧
      (∀ halt, watched.1 = .error halt → hooks.error = some .quiet →
        watched.2.errors = world.errors ++ [halt]) ∧
      (hooks.error = none → watched.2.errors = world.errors) := by
  intro watched plain
  have ended : Observed hooks world watched _ :=
    execute_watched setup source (show ({ options with hooks } : RunOptions).hooks.Calm from calm) world
  have other : Observed {} world plain _ :=
    execute_watched setup source (show ({ options with hooks := {} } : RunOptions).hooks.Calm from
      Hooks.calm_none) world
  obtain ⟨outcome, left⟩ := Prod.mk.inj (ended.same.symm.trans other.same)
  refine ⟨outcome, left, ended.returned, fun halt raised told => ?_, fun untold => ?_⟩
  · rw [ended.raised halt raised,told]
    rfl
  · cases raised : watched.1 with
    | ok record => exact ended.returned record raised
    | error halt =>
      rw [ended.raised halt raised,untold]
      exact List.append_nil _

/-- A script with a run inside it that is stopped for want of a dependency: three events of its commands
are told, and one error. -/
theorem hooks_only_observe_nested :
    let setup : Setup := { host := Kit.host }
    let source := "imbere('andika(1)')\ninjiza('x')"
    let options : RunOptions := { commands := .ofList [("imbere", "imbere")] }
    let hooks : Hooks := ⟨some .quiet, some .quiet, some .quiet⟩
    let watched := execute setup source { options with hooks } {}
    let plain := execute setup source { options with hooks := {} } {}
    hooks.Calm ∧ watched.2.events.size = 4 ∧ watched.1 = plain.1 ∧ watched.2.unwatched = plain.2.unwatched ∧
      ∃ halt, watched.1 = .error halt ∧ watched.2.errors = [halt] := by
  intro setup source options hooks watched plain
  have calm : hooks.Calm := ⟨by decide, by decide, by decide⟩
  have told : watched.2.errors.length = 1 := by decide +kernel
  obtain ⟨outcome, left, returned, raised, -⟩ := hooks_only_observe setup source options hooks calm {}
  refine ⟨calm, by decide +kernel, outcome, left, ?_⟩
  cases ended : watched.1 with
  | ok record =>
    rw [returned record ended] at told
    cases told
  | error halt => exact ⟨halt, rfl, raised halt ended rfl⟩

end Inyandiko
