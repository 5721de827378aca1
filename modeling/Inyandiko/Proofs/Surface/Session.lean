import Inyandiko.Proofs.CallDepth
import Inyandiko.Proofs.Surface

/-! Surfaces over sessions. A surface outlives the runs and the events it is used in. A machine that looks
at a surface after every command, and raises the alarm if the surface is not what it was but for what
scripts may change, never does so, in any session. -/
namespace Inyandiko

open Source

variable {α β : Type}

/-- What is looked at: a surface, what it was at first, and the alarm. -/
structure Watch where
  id : Nat
  initial : Surface
  alarm : Halt

/-- Does something and then looks at the surface: it must have been kept since the beginning, and by what
was done now. -/
def Watch.inspect (watch : Watch) (work : Exec α) : Exec α := fun world =>
  let ending := work world
  let before := world.surfaces[watch.id]?.getD {}
  let after := ending.2.surfaces[watch.id]?.getD {}
  if watch.initial.Kept after ∧ before.Kept after then ending else (.error watch.alarm, ending.2)

/-- The machine of a level that looks at a surface after every command. -/
def Machine.watchful (setup : Setup) (watch : Watch) : Nat → Machine
  | 0 => exhausted id
  | depth + 1 =>
    let machine := watchful setup watch depth
    let command := fun frame context line => watch.inspect (machine.command setup line frame context)
    { code := machine.code
      block := fun lines frame context =>
        items (machine.statementBy setup (command frame context) frame context) (Statement.items lines)
      token := fun token frame context =>
        machine.tokenBy (machine.enter setup) (command frame context) token frame context
      run := machine.script }

/-- From a world where the surface has been kept since the beginning, two computations do the same and
keep it. -/
def Keeping (watch : Watch) (one two : Exec α) : Prop :=
  ∀ (world : World) surface, world.surfaces[watch.id]? = some surface → watch.initial.Kept surface →
    two world = one world ∧ ∃ after, (one world).2.surfaces[watch.id]? = some after ∧ surface.Kept after

namespace Keeping

variable {watch : Watch}

private theorem apart {Halts : Halt → Prop} {work : Exec α} (apart : work.Apart Halts) : Keeping watch work work :=
  fun world _ found kept => ⟨rfl, (apart.surfaces world).kept found kept.toAttached⟩

private theorem aside {work : Exec α} (same : ∀ world, (work world).2.surfaces = world.surfaces) :
    Keeping watch work work :=
  fun world surface found kept => ⟨rfl, surface, by rw [same,found], .refl kept.toAttached⟩

private theorem bind {first first' : Exec α} {next next' : α → Exec β} (head : Keeping watch first first')
    (tail : ∀ value, Keeping watch (next value) (next' value)) :
    Keeping watch (first >>= next) (first' >>= next') := by
  intro world surface found kept
  obtain ⟨same, after, left, moved⟩ := head world surface found kept
  rw [Exec.bind_run,Exec.bind_run,same]
  generalize first world = ending at left ⊢
  obtain ⟨halt | value, middle⟩ := ending
  · exact ⟨rfl, after, left, moved⟩
  · obtain ⟨same, last, ended, further⟩ := tail value middle after left (kept.trans moved)
    exact ⟨same, last, ended, moved.trans further⟩

private theorem inspect {work work' : Exec α} (inner : Keeping watch work work') :
    Keeping watch work (watch.inspect work') := by
  intro world surface found kept
  obtain ⟨same, after, left, moved⟩ := inner world surface found kept
  refine ⟨?_, after, left, moved⟩
  simp only [Watch.inspect,same,found,left,Option.getD_some]
  exact if_pos ⟨kept.trans moved, moved⟩

private theorem located (line : Line) {work work' : Exec α} (inner : Keeping watch work work') :
    Keeping watch (Machine.located line work) (Machine.located line work') := by
  intro world surface found kept
  obtain ⟨same, after, left, moved⟩ := inner world surface found kept
  rw [Machine.located_run,Machine.located_run,same]
  exact ⟨rfl, after, left, moved⟩

private theorem counted {context : ContextId} {work work' : Exec α} (inner : Keeping watch work work') :
    Keeping watch (Machine.counted context work) (Machine.counted context work') := by
  intro world surface found kept
  obtain ⟨same, after, left, moved⟩ := inner { world with contexts := world.contexts.modify context Machine.deeper }
    surface found kept
  rw [Machine.counted_run,Machine.counted_run,same]
  exact ⟨rfl, after, left, moved⟩

private theorem notify (hook : Option HookMode) (slot : String) (event : Event) :
    Keeping watch (Machine.notify hook slot event) (Machine.notify hook slot event) :=
  aside fun world => by
    obtain ⟨outcome, events, run⟩ := Machine.notify_run hook slot event world
    rw [run]

private theorem session {options : RunOptions} {work work' : FrameId → ContextId → Exec (Option Value)}
    (inner : ∀ root context, Keeping watch (work root context) (work' root context)) :
    Keeping watch (Machine.session options work) (Machine.session options work') := by
  intro world surface found kept
  obtain ⟨same, after, left, moved⟩ := inner world.scopes.frames.size world.contexts.size (world.opened options)
    surface found kept
  rw [Machine.session_run,Machine.session_run,same]
  refine ⟨rfl, after, ?_, moved⟩
  -- whatever the hooks of the run, its end touches no surface
  obtain ⟨log, events, ended⟩ := Machine.conclude_world options.hooks world.scopes.frames.size world.contexts.size
    (work world.scopes.frames.size world.contexts.size (world.opened options)).1
    (work world.scopes.frames.size world.contexts.size (world.opened options)).2
  dsimp only
  rw [ended]
  exact left

end Keeping

/-- Everything that machines do keeps the surface. -/
def Accord.keeping (setup : Setup) (watch : Watch) : Accord setup where
  hosted := true
  Rel _ _ one two := Keeping watch one two
  Halts _ := True
  Known _ := True
  Body _ := True
  fault _ := trivial
  crash _ := trivial
  tooDeep := trivial
  endless := trivial
  call _ _ _ _ _ := trivial
  family _ _ _ _ _ _ := trivial
  handler _ := setup.handler_fails_anyhow
  plain := Context.plain_of_hosted
  apart := .apart
  bind := .bind
  context {context} _ _ _ _ tail := fun world => tail (world.contextAt context) trivial world
  adjust _ := .aside fun _ => rfl
  counted := .counted
  start {context} _ _ := fun world => Keeping.notify (world.contextAt context).hooks.start _ _ world
  finish {context} _ _ _ := fun world => Keeping.notify (world.contextAt context).hooks.finish _ _ world
  stopIfInvalid value line := .aside fun world => by rw [Machine.stopIfInvalid_run]
  session _ _ _ _ _ inner := .session inner

def Discipline.keeping (setup : Setup) (watch : Watch) : Discipline (id : List Line → List Line) setup :=
  (Accord.keeping setup watch).discipline trivial fun line _ _ => Keeping.located line

private theorem Machine.watchful_level (setup : Setup) (watch : Watch) (depth : Nat) :
    (Discipline.keeping setup watch).AgreeFully (level setup depth) (watchful setup watch depth) := by
  have counts := (Accord.keeping setup watch).counts
  have tells := (Accord.keeping setup watch).tells
  induction depth with
  | zero => exact (Discipline.keeping setup watch).agree_exhausted counts (fun _ => trivial) fun _ => rfl
  | succ depth ih =>
    -- commands are looked at as statements and as tokens
    have commands (line : Line) (frame : FrameId) (context : ContextId) :
        Keeping watch ((level setup depth).command setup line frame context)
          (watch.inspect ((watchful setup watch depth).command setup line frame context)) := by
      have inner : (Discipline.keeping setup watch).Rel context none
          ((level setup depth).command setup line frame context)
          ((watchful setup watch depth).command setup line frame context) :=
        (Discipline.keeping setup watch).command ih tells ((Discipline.keeping setup watch).runs_fully id line)
          (fun _ => trivial) trivial
      exact .inspect inner
    refine (Discipline.keeping setup watch).agree_next counts (fun _ => trivial) ih rfl rfl rfl rfl ?_ ?_
    · intro lines frame _ context
      refine (Discipline.keeping setup watch).items (Statement.strict_items lines) fun item _ statement _ => ?_
      rw [statement_eq]
      exact (Discipline.keeping setup watch).statementBy ih.toBlocks trivial (fun _ _ => trivial)
        (fun _ _ => trivial) fun line _ => commands line frame context
    · intro token frame _ context home
      simp only [token_level,watchful]
      refine (Discipline.keeping setup watch).tokenBy ih.toCalls ((Discipline.keeping setup watch).runs_fully id _)
        trivial fun _ => ?_
      exact commands (Text.trim token) frame context

/-- The steps of a session on the machine that looks at the surface. -/
def SessionStep.watchful (setup : Setup) (watch : Watch) : SessionStep → Exec SessionResult :=
  performBy setup (Machine.watchful setup watch Machine.levels)
    ((Machine.watchful setup watch Machine.levels).enter setup)

section Sessions

variable (setup : Setup) (watch : Watch)

private theorem Machine.run_watchful (depth : Nat) (source : String) (options : RunOptions) :
    Keeping watch ((level setup (depth + 1)).run source options)
      ((watchful setup watch (depth + 1)).run source options) := by
  have agree := watchful_level setup watch depth
  refine .bind (.aside fun _ => rfl) fun _ => .session fun root context => ?_
  rw [← agree.code]
  exact agree.block trivial trivial context

private theorem Runner.execute_watchful (runner : Runner) (source : String) (overrides : Options) :
    Keeping watch (runner.executeBy (Machine.full setup) source overrides)
      (runner.executeBy (Machine.watchful setup watch Machine.levels) source overrides) := by
  refine .bind (.aside fun world => ?_) fun options =>
    Machine.run_watchful setup watch Machine.outermost source options
  obtain ⟨outcome, settled, -⟩ := runner.settle_run overrides world
  rw [settled]

private theorem Runner.executeMany_watchful (runner : Runner) (overrides : Options) (sources : List String) :
    Keeping watch (runner.executeManyBy (Machine.full setup) overrides sources)
      (runner.executeManyBy (Machine.watchful setup watch Machine.levels) overrides sources) := by
  induction sources with
  | nil =>
    rw [executeManyBy,executeManyBy]
    exact .aside fun _ => rfl
  | cons source sources ih =>
    refine .bind (runner.execute_watchful setup watch source overrides) fun record => ?_
    cases record.failedLine with
    | some line => exact .aside fun _ => rfl
    | none => exact .bind ih fun _ => .aside fun _ => rfl

private theorem Machine.fire_watchful (payload : Value) (listeners : List Listener) :
    Keeping watch (fireBy ((full setup).enter setup) payload listeners)
      (fireBy ((watchful setup watch levels).enter setup) payload listeners) := by
  -- the listeners may belong to any runs, and the relation does not say which
  have fired : (Discipline.keeping setup watch).Rel 0 none
      (fireBy ((full setup).enter setup) payload listeners)
      (fireBy ((watchful setup watch levels).enter setup) payload listeners) :=
    (Discipline.keeping setup watch).fireBy (watchful_level setup watch levels).toCalls (fun same => same) trivial
      listeners
  exact fired

private theorem SessionStep.perform_watchful (step : SessionStep) :
    Keeping watch (step.perform setup) (step.watchful setup watch) := by
  rw [perform_eq]
  cases step with
  | run source options =>
    exact .bind (Machine.run_watchful setup watch Machine.outermost source options) fun _ => .aside fun _ => rfl
  | many surface options overrides sources =>
    exact .bind (Runner.executeMany_watchful setup watch _ overrides sources) fun _ => .aside fun _ => rfl
  | dispatch surface selector event payload =>
    exact .bind (.aside fun _ => rfl) fun _ =>
      .bind (Machine.fire_watchful setup watch payload _) fun _ => .aside fun _ => rfl

private theorem session_watchful (steps : List SessionStep) {world : World} {surface : Surface}
    (found : world.surfaces[watch.id]? = some surface) (kept : watch.initial.Kept surface) :
    sessionBy (·.watchful setup watch) steps world = sessionBy (·.perform setup) steps world ∧
      ∃ last, (sessionBy (·.perform setup) steps world).2.surfaces[watch.id]? = some last ∧
        watch.initial.Kept last := by
  induction steps generalizing world surface with
  | nil =>
    rw [sessionBy,sessionBy]
    exact ⟨rfl, surface, found, kept⟩
  | cons step steps ih =>
    -- however the step ends, the next one begins with a surface that was kept
    obtain ⟨same, after, left, moved⟩ := step.perform_watchful setup watch world surface found kept
    obtain ⟨others, last⟩ := ih left (kept.trans moved)
    refine ⟨?_, last⟩
    simp only [sessionBy,same,others]

end Sessions

/-- Surfaces are kept over sessions. Runs, runs inside them and events, in any order and however they end,
go as on a machine that looks at a surface after every command and raises any alarm if the surface is not
kept: it has the elements it had at first, each with the value it had then or a text; only elements have
styles and listeners; alerts and listeners were only added behind those that were there, at first and
before the command. A command that the environment, the validation or the network takes charge of, and
that fails, has changed nothing on any surface. -/
theorem surface_is_kept (setup : Setup) (steps : List SessionStep) (world : World) (id : Nat) (initial : Surface)
    (found : world.surfaces[id]? = some initial) (attached : initial.Attached) :
    (∀ alarm, sessionBy (·.watchful setup { id, initial, alarm }) steps world =
      sessionBy (·.perform setup) steps world) ∧
    (∃ last, (sessionBy (·.perform setup) steps world).2.surfaces[id]? = some last ∧ initial.Kept last) ∧
    ∀ (machine : Machine) (line : Line) (frame : FrameId) (context : ContextId) (before after : World) (halt : Halt),
      setup.Takes line → (before.contextAt context).hooks.finish ≠ some .failing →
      machine.command setup line frame context before = (.error halt, after) →
      after.surfaces = before.surfaces := by
  have kept := Surface.Kept.refl attached
  refine ⟨fun alarm => ?_, ?_, fun machine line frame context before after halt takes calm failed => ?_⟩
  · exact (session_watchful setup { id, initial, alarm } steps found kept).1
  · exact (session_watchful setup { id, initial, alarm := .endless } steps found kept).2
  · exact Machine.surfaces_of_failed setup line frame machine takes calm failed

/-- A run that binds a listener, styles the element in a run inside it and fails at an element that is not
there, and an event after it. -/
theorem surface_is_kept_listener :
    let initial : Surface := { elements := .ofList [("#b", .null)] }
    let world : World := { surfaces := #[initial] }
    let setup : Setup := { host := Kit.host }
    let steps : List SessionStep := [
      .run ("umukoro f(e) \x7b\nshyiramo('#b', e)\nmuburire(e)\n\x7d\ntegeka('#b', 'click', f)\n" ++
          "imbere(\"hindura_ibuju('#b', 'red')\", null)\nshyiramo('#c', 1)")
        { surface := some 0, commands := .ofList [("imbere", "imbere")] },
      .dispatch 0 "#b" "click" (.text "a")]
    let ended := sessionBy (·.perform setup) steps world
    let before : World := { contexts := #[{ surface := some 0 }], surfaces := #[initial] }
    let failing := "shyiramo('#c', 1)".toList
    world.surfaces[0]? = some initial ∧ initial.Attached ∧ ended.1.map Except.isOk = [false, true] ∧
      (∀ alarm, sessionBy (·.watchful setup { id := 0, initial, alarm }) steps world = ended) ∧
      (∃ last, ended.2.surfaces[0]? = some last ∧ initial.Kept last ∧ last.styles.keys = ["#b"] ∧
        last.alerts = #["a"] ∧ last.elements.get? "#b" = some (.text "a")) ∧
      setup.Takes failing ∧ ∃ halt after,
        (Machine.full setup).command setup failing 0 0 before = (.error halt, after) ∧
          after.surfaces = before.surfaces := by
  intro initial world setup steps ended before failing
  have attached : initial.Attached := ⟨by simp [initial,Table.keys,Table.empty], by simp [initial]⟩
  have takes : setup.Takes failing := by
    left
    change (Call.parseNamed? failing Environment.names).isSome = true
    decide +kernel
  obtain ⟨watched, ⟨last, found, kept⟩, spared⟩ := surface_is_kept setup steps world 0 initial rfl attached
  have left : ended.2.surfaces[0]?.map (fun last => (last.styles.keys, last.alerts, last.elements.get? "#b")) =
      some (["#b"], #["a"], some (.text "a")) := by decide +kernel
  rw [found] at left
  have parts := Option.some.inj left
  have failed : ((Machine.full setup).command setup failing 0 0 before).1.isOk = false := by decide +kernel
  refine ⟨rfl, attached, by decide +kernel, watched, ⟨last, found, kept, congrArg (·.1) parts,
    congrArg (·.2.1) parts, congrArg (·.2.2) parts⟩, takes, ?_⟩
  rcases run : (Machine.full setup).command setup failing 0 0 before with ⟨halt | value, after⟩
  · exact ⟨halt, after, rfl, spared _ failing 0 0 before after halt takes (by simp [before,World.contextAt]) run⟩
  · rw [run] at failed
    cases failed

end Inyandiko
