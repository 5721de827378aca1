import Inyandiko.Proofs.InStep.Level

/-! What a run does to the world. Every computation made of steps takes the world through a sequence
of changes, whether it ends by itself or early, so what every change keeps is kept by every run. -/
namespace Inyandiko

variable {Code Code' : Type}

/-- Sequences of changes by a computation of a context. Names are declared in the home and in new
frames, which are the home of what is done inside them. Only hosted computations change frames as
the host does, make surfaces and open further runs. -/
inductive Changes (hosted : Bool) : ContextId → Option FrameId → World Code → World Code → Prop
  | refl {context home} (world : World Code) : Changes hosted context home world world
  | trans {context home} {first second third : World Code} (head : Changes hosted context home first second)
      (tail : Changes hosted context home second third) : Changes hosted context home first third
  | heap {context home} (world : World Code) (heap : Heap) :
      Changes hosted context home world { world with heap }
  | declare {context} {frame : FrameId} {world : World Code} {name : String} {value : Value} {isConst : Bool}
      {scopes : Scopes} (declared : world.scopes.declare frame name value isConst = .ok scopes) :
      Changes hosted context (some frame) world { world with scopes }
  | assign {context} {frame : FrameId} {world : World Code} {name : String} {value : Value} {scopes : Scopes}
      (assigned : world.scopes.assign frame name value = .ok scopes) :
      Changes hosted context (some frame) world { world with scopes }
  | child {context home} {world after : World Code} (parent : FrameId)
      (inner : Changes hosted context (some (world.scopes.child parent).1)
        { world with scopes := (world.scopes.child parent).2 } after) :
      Changes hosted context home world after
  | result {context home} (world : World Code) (value : Value) :
      Changes hosted context home world { world with
        contexts := world.contexts.modify context fun run =>
          { run with results := run.results.push value } }
  | exported {context} (world : World Code) (name source : String) (frame : FrameId) :
      Changes hosted context (some frame) world { world with
        contexts := world.contexts.modify context fun run =>
          { run with exports := run.exports.insert name (frame, source) } }
  | defined {context} (world : World Code) (name : String) (params : List String) (body : Code)
      (frame : FrameId) :
      Changes hosted context (some frame) world { world with
        contexts := world.contexts.modify context fun run =>
          { run with functions := run.functions.insert name ⟨params, body, frame⟩ } }
  | call {context home} {world after : World Code}
      (inner : Changes hosted context home
        { world with contexts := world.contexts.modify context Machine.deeper } after) :
      Changes hosted context home world
        { after with contexts := after.contexts.modify context Machine.shallower }
  | logged {context home} (world : World Code) (log : Array LogEntry) :
      Changes hosted context home world { world with log }
  | written {context home} (world : World Code) (text : String) :
      Changes hosted context home world { world with output := world.output.push text }
  | requested {context home} (world : World Code) (made : Request) :
      Changes hosted context home world { world with requests := world.requests.push made }
  | recorded {context home} (world : World Code) (events : Array Event) :
      Changes hosted context home world { world with events }
  | surface {context home} (world : World Code) (id : Nat) {after : Surface}
      (step : Surface.Step (world.surfaces[id]?.getD {}) after) :
      Changes hosted context home world
        { world with surfaces := world.surfaces.setIfInBounds id after }
  | hostAssign {context home} (allowed : hosted = true) {frame : FrameId} {world : World Code}
      {name : String} {value : Value} {scopes : Scopes}
      (assigned : world.scopes.assign frame name value = .ok scopes) :
      Changes hosted context home world { world with scopes }
  | hostErase {context home} (allowed : hosted = true) {frame : FrameId} {world : World Code}
      {name : String} {scopes : Scopes} (erased : world.scopes.erase frame name = .ok scopes) :
      Changes hosted context home world { world with scopes }
  | newSurface {context home} (allowed : hosted = true) (world : World Code) (elements : Table Value) :
      Changes hosted context home world { world with surfaces := world.surfaces.push { elements } }
  | run {context home} (allowed : hosted = true) (options : RunOptions) {world after : World Code}
      (inner : Changes hosted world.contexts.size (some world.scopes.frames.size)
        (world.opened options) after) :
      Changes hosted context home world after

namespace Changes

variable {hosted : Bool} {context : ContextId} {home : Option FrameId} {world after : World Code}

/-- Where no host is involved a context keeps its table of commands. -/
theorem commands (changes : Changes hosted context home world after) (plain : hosted = false) :
    (after.contextAt context).commands = (world.contextAt context).commands := by
  induction changes with
  | refl | heap | declare | assign | logged | written | requested | recorded | surface => rfl
  | trans head tail first second => exact second.trans first
  | child parent inner ih => exact ih
  | result | exported | defined => exact World.view_modify (·.commands) _ _ _ _ fun _ => rfl
  | call inner ih =>
    refine (World.view_modify (·.commands) _ _ _ Machine.shallower fun _ => rfl).trans (ih.trans ?_)
    exact World.view_modify (·.commands) _ _ _ Machine.deeper fun _ => rfl
  | hostAssign allowed | hostErase allowed | newSurface allowed | run allowed =>
    exact absurd allowed (by simp [plain])

end Changes

/-- A world with more behind its output, its requests, the alerts of each surface and the results of
a context. -/
structure World.Grown (context : ContextId) (before after : World Code) : Prop where
  output : before.output.toList <+: after.output.toList
  requests : before.requests.toList <+: after.requests.toList
  alerts (id : Nat) : (before.surfaces[id]?.getD {}).alerts.toList <+:
    (after.surfaces[id]?.getD {}).alerts.toList
  results : (before.contextAt context).results.toList <+: (after.contextAt context).results.toList

namespace World.Grown

variable {context : ContextId}

theorem refl (world : World Code) : world.Grown context world :=
  ⟨List.prefix_rfl, List.prefix_rfl, fun _ => List.prefix_rfl, List.prefix_rfl⟩

theorem trans {first second third : World Code} (one : first.Grown context second)
    (two : second.Grown context third) : first.Grown context third where
  output := one.output.trans two.output
  requests := one.requests.trans two.requests
  alerts id := (one.alerts id).trans (two.alerts id)
  results := one.results.trans two.results

/-- A change of a context that keeps its results. -/
theorem of_modify (world : World Code) (id : ContextId) (change : Context Code → Context Code)
    (keeps : ∀ run, (change run).results = run.results) :
    world.Grown context { world with contexts := world.contexts.modify id change } where
  output := List.prefix_rfl
  requests := List.prefix_rfl
  alerts _ := List.prefix_rfl
  results := by
    have same := World.view_modify (·.results) world id context change keeps
    simp only [same,List.prefix_rfl]

private theorem of_result (world : World Code) (id : ContextId) (value : Value) :
    world.Grown context { world with
      contexts := world.contexts.modify id fun run =>
        { run with results := run.results.push value } } where
  output := List.prefix_rfl
  requests := List.prefix_rfl
  alerts _ := List.prefix_rfl
  results := by
    simp only [contextAt,Array.getElem?_modify]
    split
    · cases world.contexts[context]? with
      | none => exact List.prefix_rfl
      | some run => simp
    · exact List.prefix_rfl

private theorem read_then {surface changed after : Surface} {selector : String}
    (done : (do let _ ← surface.read selector; return changed) = Except.ok after) :
    after = changed := by
  cases found : surface.read selector with
  | error halt => rw [found] at done; cases done
  | ok value => rw [found] at done; exact (Except.ok.inj done).symm

private theorem alerts_step {before after : Surface} (step : Surface.Step before after) :
    before.alerts.toList <+: after.alerts.toList := by
  cases step with
  | alert message => simp [Surface.alert]
  | write written =>
    obtain rfl := read_then written
    exact List.prefix_rfl
  | style styled =>
    obtain rfl := read_then styled
    exact List.prefix_rfl
  | listen bound =>
    obtain rfl := read_then bound
    exact List.prefix_rfl

private theorem of_surface (world : World Code) (id : Nat) {after : Surface}
    (step : Surface.Step (world.surfaces[id]?.getD {}) after) :
    world.Grown context { world with surfaces := world.surfaces.setIfInBounds id after } where
  output := List.prefix_rfl
  requests := List.prefix_rfl
  alerts other := by
    simp only [Array.getElem?_setIfInBounds]
    split
    · rename_i same
      subst same
      split
      · exact alerts_step step
      · rename_i outside
        simp [outside]
    · exact List.prefix_rfl
  results := List.prefix_rfl

end World.Grown

/-- Without a host, changes only add to what a run leaves behind. -/
theorem Changes.grown {context : ContextId} {home : Option FrameId} {before after : World Code}
    (changes : Changes false context home before after) : before.Grown context after := by
  generalize unhosted : false = hosted at changes
  induction changes with
  | refl world => exact .refl world
  | trans head tail first second => exact first.trans second
  | heap | declare | assign | logged | recorded =>
    exact ⟨List.prefix_rfl, List.prefix_rfl, fun _ => List.prefix_rfl, List.prefix_rfl⟩
  | child parent inner ih => exact ⟨ih.output, ih.requests, ih.alerts, ih.results⟩
  | result world value => exact .of_result world _ value
  | exported | defined => exact .of_modify _ _ _ fun _ => rfl
  | @call _ _ world after inner ih =>
    refine .trans (.trans (.of_modify world _ Machine.deeper fun _ => rfl) ih) ?_
    exact .of_modify after _ Machine.shallower fun _ => rfl
  | written world text =>
    exact ⟨by simp, List.prefix_rfl, fun _ => List.prefix_rfl, List.prefix_rfl⟩
  | requested world made =>
    exact ⟨List.prefix_rfl, by simp, fun _ => List.prefix_rfl, List.prefix_rfl⟩
  | surface world id step => exact .of_surface world id step
  | hostAssign allowed | hostErase allowed | newSurface allowed | run allowed =>
    exact absurd allowed (by simp [← unhosted])

namespace InStep

variable {recode : Code → Code'} {hosted : Bool} {context : ContextId} {home : Option FrameId}
  {α : Type} {work : ExecOf Code α} {work' : ExecOf Code' α}

private theorem changes_nestedOptions (allowed : hosted = true) (overrides : Overrides)
    (frame : FrameId) (world : World Code) :
    Changes hosted context home world (Machine.nestedOptions overrides frame context world).2 := by
  cases elements : overrides.elements with
  | none =>
    simp only [Machine.nestedOptions,elements]
    exact .refl world
  | some elements' =>
    simp only [Machine.nestedOptions,elements]
    exact .newSurface allowed world elements'

/-- A computation in step takes the world through changes, however it ends. -/
theorem changes (steps : InStep recode hosted context home work work') (world : World Code)
    (plain : hosted = false → (world.contextAt context).commands = .empty) :
    Changes hosted context home world (work world).2 := by
  induction steps generalizing world with
  | pure | throw | heap | scopes | surface => exact .refl world
  | @bind _ _ _ _ first _ next _ head tail begun following =>
    have begun := begun world plain
    rw [Exec.bind_run]
    rcases result : first world with ⟨halt | value, after⟩
    · rwa [result] at begun
    · rw [result] at begun
      refine begun.trans (following value after fun unhosted => ?_)
      rw [begun.commands unhosted,plain unhosted]
  | onHeap step =>
    rw [Exec.onHeap_run]
    rcases step world.heap with halt | ⟨value, heap⟩
    · exact .refl world
    · exact .heap world heap
  | context blind tail following => exact following (world.contextAt _) plain world plain
  | declare frame name value isConst =>
    rw [Exec.onScopes_run]
    cases declared : world.scopes.declare frame name value isConst with
    | error halt => exact .refl world
    | ok scopes => exact .declare declared
  | assign frame name value =>
    rw [Exec.onScopes_run]
    cases assigned : world.scopes.assign frame name value with
    | error halt => exact .refl world
    | ok scopes => exact .assign assigned
  | child parent tail following => exact .child parent (following _ _ plain)
  | pushResult value => exact .result world value
  | addExport name source frame => exact .exported world name source frame
  | define header body frame =>
    exact .trans (.defined world header.name header.params body frame) (.logged _ _)
  | log => exact .logged world _
  | write text => exact .written world text
  | request made => exact .requested world made
  | @onSurface _ _ id change step =>
    rw [Exec.onSurface_run]
    cases changed : change (world.surfaces[id]?.getD {}) with
    | error halt => exact .refl world
    | ok after => exact .surface world id (step _ _ changed)
  | notifyStart name line =>
    obtain ⟨outcome, events, run⟩ := Machine.notifyStart_run name line _ world
    rw [run]
    exact .recorded world events
  | notifyFinish name line value =>
    obtain ⟨outcome, events, run⟩ := Machine.notifyFinish_run name line value _ world
    rw [run]
    exact .recorded world events
  | stopIfInvalid value line =>
    rw [Machine.stopIfInvalid_run]
    exact .refl world
  | located line inner ih =>
    rw [Machine.located_run]
    exact ih world plain
  | counted inner ih =>
    rw [Machine.counted_run]
    refine .call (ih _ fun unhosted => ?_)
    rw [← plain unhosted]
    exact World.view_modify (·.commands) world _ _ Machine.deeper fun _ => rfl
  | hostAssign allowed frame name value =>
    rw [Exec.onScopes_run]
    cases assigned : world.scopes.assign frame name value with
    | error halt => exact .refl world
    | ok scopes => exact .hostAssign allowed assigned
  | hostErase allowed frame name =>
    rw [Exec.onScopes_run]
    cases erased : world.scopes.erase frame name with
    | error halt => exact .refl world
    | ok scopes => exact .hostErase allowed erased
  | nestedOptions allowed overrides frame => exact changes_nestedOptions allowed overrides frame world
  | @session _ _ allowed options work _ inner ih =>
    have body := ih world.scopes.frames.size world.contexts.size (world.opened options)
      fun unhosted => absurd allowed (by simp [unhosted])
    obtain ⟨log, events, left⟩ := Machine.conclude_world options.hooks world.scopes.frames.size
      world.contexts.size
      (work world.scopes.frames.size world.contexts.size (world.opened options)).1 _
    rw [Machine.session_run,left]
    exact .trans (.run allowed options body) (.trans (.logged _ log) (.recorded _ events))

end InStep

end Inyandiko
