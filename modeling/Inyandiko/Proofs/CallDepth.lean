import Inyandiko.Proofs.Answers
import Inyandiko.Proofs.Tally
import Inyandiko.Runner

/-! The counters of calls over sessions, in which scripts are run and events are fired on surfaces that
outlive the runs. Between steps no context counts a call, however the steps end, so that every step is as
good as one of a machine that knows the calls under way. -/
namespace Inyandiko

/-- No context counts a call. -/
def World.Idle (world : World) : Prop := ∀ id, (world.contextAt id).callDepth = 0

private theorem World.tallied_nil_iff (setup : Setup) (single : Bool) (world : World) :
    world.Tallied setup single [] ↔ world.Idle := by
  constructor
  · intro tallied id
    by_cases inside : id < world.contexts.size
    · exact tallied.depths id inside
    · rw [contextAt_of_size_le (Nat.le_of_not_lt inside)]
  · intro idle
    exact ⟨fun id _ => idle id, List.forall_mem_nil _, List.forall_mem_nil _, fun _ => Int.le_max_left _ _⟩

namespace Runner

/-- The options of a run that is given more options. -/
def settle (runner : Runner) (overrides : Options) : Exec RunOptions := do
  let options ← merged runner.options overrides
  let heap := (← get).heap
  liftExcept ((options.toRun heap runner.surface).mapError Halt.crash)

theorem settle_run (runner : Runner) (overrides : Options) (world : World) :
    ∃ outcome : Except Crash RunOptions, runner.settle overrides world = (outcome.mapError Halt.crash, world) ∧
      ∀ options, outcome = .ok options → options.hooks.error = none := by
  simp only [settle,merged,Exec.bind_run,Exec.get_run,Exec.liftExcept_run]
  cases Options.merge world.heap runner.options overrides with
  | error crash => exact ⟨.error crash, rfl, nofun⟩
  | ok options =>
    refine ⟨options.toRun world.heap runner.surface, rfl, fun settled made => ?_⟩
    obtain ⟨vars, _, made⟩ := ok_of_bind made
    obtain ⟨dependencies, _, made⟩ := ok_of_bind made
    obtain ⟨commands, _, made⟩ := ok_of_bind made
    cases made
    rfl

/-- Runs a script with more options on a machine. -/
def executeBy (machine : Machine) (runner : Runner) (source : String) (overrides : Options) : Exec Record := do
  machine.run source (← runner.settle overrides)

private theorem execute_eq (runner : Runner) (source : String) (overrides : Options) :
    runner.execute source overrides = runner.executeBy (Machine.full runner.setup) source overrides := by
  simp only [execute,executeBy,settle,bind_assoc]
  rfl

/-- Runs scripts on a machine, in order up to the first one that a validation stops. -/
def executeManyBy (machine : Machine) (runner : Runner) (overrides : Options) : List String → Exec (List Record)
  | [] => return []
  | source :: sources => do
    let record ← runner.executeBy machine source overrides
    match record.failedLine with
    | some line =>
      Exec.log .debug .runner s!"stopping after validation failure: {line}"
      return [record]
    | none => return record :: (← runner.executeManyBy machine overrides sources)

private theorem executeMany_eq (runner : Runner) (overrides : Options) (sources : List String) :
    runner.executeMany overrides sources = runner.executeManyBy (Machine.full runner.setup) overrides sources := by
  induction sources with
  | nil => rfl
  | cons source sources ih =>
    rw [executeMany,ih,execute_eq]
    rfl

end Runner

/-- A step of a session: a script, scripts in order, or an event of a surface. -/
inductive SessionStep
  | run (source : String) (options : RunOptions)
  | many (surface : Option Nat) (options overrides : Options) (sources : List String)
  | dispatch (surface : Nat) (selector event : String) (payload : Value)

/-- What a step gives. -/
inductive SessionResult
  | records (records : List Record)
  | values (values : List Value)

namespace SessionStep

/-- Takes a step. -/
def perform (setup : Setup) : SessionStep → Exec SessionResult
  | run source options => do return .records [← execute setup source options]
  | many surface options overrides sources => do
    return .records (← Runner.executeMany { setup, surface, options } overrides sources)
  | dispatch surface selector event payload => do
    return .values (← Inyandiko.dispatch setup surface selector event payload)

/-- Takes a step on a machine; listeners are entered in a given way. -/
def performBy (setup : Setup) (machine : Machine) (enter : Machine.Entry (List Source.Line)) :
    SessionStep → Exec SessionResult
  | run source options => do return .records [← machine.run source options]
  | many surface options overrides sources => do
    return .records (← Runner.executeManyBy machine { setup, surface, options } overrides sources)
  | dispatch surface selector event payload => do
    return .values (← Machine.fireBy enter payload ((← Exec.surface surface).listenersOf selector event))

/-- A step that tells nobody of the halt of a run. -/
def Unheard : SessionStep → Prop
  | run _ options => options.hooks.error = none
  | _ => True

theorem perform_eq (setup : Setup) (step : SessionStep) :
    step.perform setup = step.performBy setup (Machine.full setup) ((Machine.full setup).enter setup) := by
  cases step with
  | run source options => rfl
  | many surface options overrides sources => rw [perform,Runner.executeMany_eq,performBy]
  | dispatch surface selector event payload =>
    simp only [perform,Inyandiko.dispatch,performBy,Machine.fire_eq,bind_assoc]

end SessionStep

/-- Takes the steps of a session. The session goes on where a step fails. -/
def sessionBy (perform : SessionStep → Exec SessionResult) :
    List SessionStep → World → List (Except Halt SessionResult) × World
  | [], world => ([], world)
  | step :: steps, world =>
    let done := perform step world
    let rest := sessionBy perform steps done.2
    (done.1 :: rest.1, rest.2)

/-- The steps of a session on the machine that is told the calls under way; between steps there are none. -/
def SessionStep.tallied (setup : Setup) (audit : Audit) : SessionStep → Exec SessionResult :=
  performBy setup (Machine.tallied setup audit Machine.levels [])
    (Machine.tallyEntry setup audit (Machine.tallied setup audit Machine.levels) [])

section Steps

variable {setup : Setup} {audit : Audit} {world : World}

private theorem Machine.run_tallied (modest : audit.refusal = .callDepth ∨ setup.host.Modest) (depth : Nat)
    (source : String) {options : RunOptions} (hookless : audit.refusal = .callDepth ∨ options.hooks.error = none)
    (plain : audit.single = true → options.commands = .empty) (tallied : world.Tallied setup audit.single []) :
    Tallies setup audit [] world ((level setup (depth + 1)).run source options world)
      ((Machine.tallied setup audit (depth + 1) []).run source options world) := by
  obtain ⟨blocks, -⟩ := tally_level modest depth []
  refine Tallies.checked tallied (Tallies.bind (.elsewhere tallied nofun rfl) ?_)
  intro _ after logged
  refine TalliedBy.session hookless (fun only => ⟨rfl, plain only⟩) (fun root context => ?_) logged.tallied
  rw [← blocks.code]
  exact blocks.block trivial trivial context

private theorem Audit.several_not_single (audit : Audit) (several : audit.single = false) {P : Prop}
    (only : audit.single = true) : P := by
  rw [several] at only
  cases only

variable (several : audit.single = false) (modest : audit.refusal = .callDepth ∨ setup.host.Modest)
include several modest

/-- The listeners of an event, in whatever contexts they are, start without calls under way. -/
private theorem Machine.fire_tallied (payload : Value) (listeners : List Listener)
    (tallied : world.Tallied setup audit.single []) :
    Tallies setup audit [] world (fireBy ((level setup levels).enter setup) payload listeners world)
      (fireBy (tallyEntry setup audit (Machine.tallied setup audit levels) []) payload listeners world) := by
  induction listeners generalizing world with
  | nil => exact .elsewhere tallied nofun rfl
  | cons listener listeners ih =>
    have called : Tallies setup audit [] world
        (callBy ((level setup levels).enter setup) listener.function (pure [payload]) listener.context world)
        (callBy (tallyEntry setup audit (Machine.tallied setup audit levels) []) listener.function (pure [payload])
          listener.context world) := by
      by_cases inside : listener.context < world.contexts.size
      · have entered : (Discipline.tallying setup audit modest []).Rel listener.context none
            (callBy ((level setup levels).enter setup) listener.function (pure [payload]) listener.context)
            (callBy (tallyEntry setup audit (Machine.tallied setup audit levels) []) listener.function (pure [payload])
              listener.context) :=
          (Discipline.tallying setup audit modest []).callBy (tally_level modest levels []).2 listener.function (.pure _)
        exact entered world ⟨tallied, inside, audit.several_not_single several⟩
      · -- a context that is not there has no functions
        simp only [callBy,Exec.bind_run,Exec.context_run,World.contextAt_of_size_le (Nat.le_of_not_lt inside)]
        exact .elsewhere tallied (fun halt raised => by cases raised; exact Halt.relabel_fault (by nofun) _) rfl
    refine called.bind fun value after begun => (ih begun.tallied).bind fun values later fired => ?_
    exact .elsewhere fired.tallied nofun rfl

private theorem Runner.execute_tallied (runner : Runner) (source : String) (overrides : Options)
    (tallied : world.Tallied setup audit.single []) :
    Tallies setup audit [] world (runner.executeBy (Machine.full setup) source overrides world)
      (runner.executeBy (Machine.tallied setup audit Machine.levels []) source overrides world) := by
  obtain ⟨outcome, settled, hookless⟩ := runner.settle_run overrides world
  rw [executeBy,executeBy,Exec.bind_run,Exec.bind_run,settled]
  cases outcome with
  | error crash => exact ⟨rfl, tallied, Nat.le_refl _, fun _ _ => rfl⟩
  | ok options =>
    exact Machine.run_tallied modest Machine.outermost source (.inr (hookless options rfl))
      (audit.several_not_single several) tallied

private theorem Runner.executeMany_tallied (runner : Runner) (overrides : Options) (sources : List String)
    (tallied : world.Tallied setup audit.single []) :
    Tallies setup audit [] world (runner.executeManyBy (Machine.full setup) overrides sources world)
      (runner.executeManyBy (Machine.tallied setup audit Machine.levels []) overrides sources world) := by
  induction sources generalizing world with
  | nil =>
    rw [executeManyBy,executeManyBy]
    exact .elsewhere tallied nofun rfl
  | cons source sources ih =>
    refine (runner.execute_tallied several modest source overrides tallied).bind fun record after begun => ?_
    cases record.failedLine with
    | some line =>
      dsimp only
      exact .elsewhere begun.tallied nofun rfl
    | none => exact (ih begun.tallied).bind fun records later ran => .elsewhere ran.tallied nofun rfl

private theorem SessionStep.perform_tallied (step : SessionStep) (unheard : audit.refusal = .callDepth ∨ step.Unheard)
    (tallied : world.Tallied setup audit.single []) :
    Tallies setup audit [] world (step.perform setup world) (step.tallied setup audit world) := by
  rw [perform_eq]
  cases step with
  | run source options =>
    refine Tallies.bind (Machine.run_tallied modest Machine.outermost source unheard
      (audit.several_not_single several) tallied) ?_
    exact fun record after ran => .elsewhere ran.tallied nofun rfl
  | many surface options overrides sources =>
    refine Tallies.bind (Runner.executeMany_tallied several modest _ overrides sources tallied) ?_
    exact fun records after ran => .elsewhere ran.tallied nofun rfl
  | dispatch surface selector event payload =>
    refine Tallies.bind (.elsewhere tallied nofun rfl) fun found after seen => ?_
    refine Tallies.bind (Machine.fire_tallied several modest payload _ seen.tallied) ?_
    exact fun values last fired => .elsewhere fired.tallied nofun rfl

private theorem session_tallied (steps : List SessionStep)
    (unheard : audit.refusal = .callDepth ∨ ∀ step ∈ steps, step.Unheard) (idle : world.Idle) :
    let ended := sessionBy (·.perform setup) steps world
    sessionBy (·.tallied setup audit) steps world =
      (ended.1.map (·.mapError (Halt.relabel audit.refusal)), ended.2) ∧ ended.2.Idle := by
  induction steps generalizing world with
  | nil => exact ⟨rfl, idle⟩
  | cons step steps ih =>
    -- however the step ends, the counters are right again after it
    have tallied := (World.tallied_nil_iff setup audit.single world).2 idle
    have done := step.perform_tallied several modest (unheard.imp_right (· step List.mem_cons_self)) tallied
    obtain ⟨same, after⟩ := ih (unheard.imp_right fun all step member => all step (List.mem_cons_of_mem _ member))
      ((World.tallied_nil_iff _ _ _).1 done.tallied)
    refine ⟨?_, after⟩
    simp only [sessionBy,done.same,same,List.map_cons]

end Steps

private theorem CappedSettings.maxCallDepth_bounds {heap : Heap} {asked : Table Value} {settings : CappedSettings}
    (capped : ofTable heap asked = .ok settings) : 1 ≤ settings.maxCallDepth ∧ settings.maxCallDepth ≤ 64 := by
  unfold ofTable at capped
  split at capped
  · cases capped
    decide
  · have bounds (asked : Int) : 1 ≤ capDepth asked ∧ capDepth asked ≤ 64 :=
      ⟨Int.le_max_left _ _, Int.max_le.2 ⟨by decide, Int.min_le_right _ _⟩⟩
    dsimp only at capped
    split at capped <;> obtain ⟨depth, _, capped⟩ := ok_of_bind capped <;>
      split at capped <;> obtain ⟨timeout, _, capped⟩ := ok_of_bind capped <;>
      cases capped <;> exact bounds depth

private theorem Service.run_granted {setup : Setup} {request : RunRequest} {world : World} {settings : CappedSettings}
    (capped : CappedSettings.ofTable world.heap (request.settings.getD .empty) = .ok settings) (text : String)
    (surface : Option Nat) :
    run setup request text surface world =
      execute (granted setup settings) text (options request surface) world := by
  rw [run_run,capped]
  exact (execute_run _ _ _ _).symm

/-- Calls are accounted for. A session goes as on the machine that is told the calls under way and never
looks at a counter: that machine refuses a call exactly when as many calls of its context are under way
as the limit allows, gives the refusal any cause that is asked for, and would raise the alarm if some
context counted more or fewer calls than it has under way, or more than the limit. When a step is over,
no context counts a call, however the step ended. In the run of a request all calls under way, taken
together, stay within a limit of at most 64. -/
theorem calls_are_accounted_for (setup : Setup) (alarm : Halt) (world : World) (idle : world.Idle) :
    (∀ refusal steps, (refusal = .callDepth ∨ setup.host.Modest ∧ ∀ step ∈ steps, step.Unheard) →
      let ended := sessionBy (·.perform setup) steps world
      sessionBy (·.tallied setup { refusal, alarm }) steps world =
        (ended.1.map (·.mapError (Halt.relabel refusal)), ended.2) ∧ ended.2.Idle) ∧
    (∀ request text surface settings,
      CappedSettings.ofTable world.heap (request.settings.getD .empty) = .ok settings →
      settings.maxCallDepth ≤ 64 ∧
        Service.run setup request text surface world =
          (Machine.tallied (Service.granted setup settings) { alarm, single := true } Machine.levels []).run text
            (Service.options request surface) world) ∧
    Cause.callDepth.message = "Call depth limit exceeded" := by
  refine ⟨fun refusal steps quiet => ?_, fun request text surface settings capped => ?_, rfl⟩
  · exact session_tallied rfl (quiet.imp_right And.left) steps (quiet.imp_right And.right) idle
  · have tallied := (World.tallied_nil_iff (Service.granted setup settings) true world).2 idle
    have done : Tallies (Service.granted setup settings) { alarm, single := true } [] world
        (execute (Service.granted setup settings) text (Service.options request surface) world) _ :=
      Machine.run_tallied (.inl rfl) Machine.outermost text (.inl rfl) (fun _ => rfl) tallied
    refine ⟨(CappedSettings.maxCallDepth_bounds capped).2, ?_⟩
    rw [Service.run_granted capped]
    exact (done.eq rfl).symm

private theorem Host.bare_modest : Host.bare.Modest where
  call _ _ _ _ raised := by cases raised; rfl
  family _ _ _ _ _ raised := by cases raised
  handler _ _ := trivial

/-- A listener that calls itself without end, fired twice, and a request that asks for a thousand calls. -/
theorem calls_are_accounted_for_listener :
    let world : World := { surfaces := #[{ elements := .ofList [("#b", .null)] }] }
    let setup : Setup := { maxCallDepth := 2 }
    let steps : List SessionStep := [
      .run "umukoro f(e) \x7b\nf(e)\n\x7d\ntegeka('#b', 'click', f)" { surface := some 0 },
      .dispatch 0 "#b" "click" .null, .dispatch 0 "#b" "click" .null]
    let request : RunRequest := { settings := some (.ofList [("max_call_depth", .number (.int 1000))]) }
    let ended := sessionBy (·.perform setup) steps world
    world.Idle ∧ setup.host.Modest ∧ (∀ step ∈ steps, step.Unheard) ∧
      ended.1.map Except.isOk = [true, false, false] ∧
      sessionBy (·.tallied setup { refusal := .emptyToken, alarm := .endless }) steps world =
        (ended.1.map (·.mapError (Halt.relabel .emptyToken)), ended.2) ∧ ended.2.Idle ∧
      CappedSettings.ofTable world.heap (request.settings.getD .empty) = .ok {} ∧
      Service.run setup request "f()" none world =
        (Machine.tallied (Service.granted setup {}) { alarm := .endless, single := true } Machine.levels []).run "f()"
          (Service.options request none) world := by
  intro world setup steps request ended
  have idle : world.Idle := fun id => by rw [World.contextAt_of_size_le (Nat.zero_le id)]
  have unheard : ∀ step ∈ steps, step.Unheard := by simp [steps,SessionStep.Unheard]
  have capped : CappedSettings.ofTable world.heap (request.settings.getD .empty) = .ok {} := by rfl
  have accounted := calls_are_accounted_for setup .endless world idle
  obtain ⟨same, after⟩ := accounted.1 .emptyToken steps (.inr ⟨Host.bare_modest, unheard⟩)
  exact ⟨idle, Host.bare_modest, unheard, by decide +kernel, same, after, capped,
    (accounted.2.1 request "f()" none {} capped).2⟩

end Inyandiko
