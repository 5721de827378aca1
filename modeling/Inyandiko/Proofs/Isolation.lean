import Inyandiko.Proofs.Confinement
import Inyandiko.Proofs.Discipline.Level

/-! Runs inside other ones are isolated. A run that is started from within another one makes frames and a
context of its own and never leaves them: everything that it changes is new, or lies on its surface, or is
an object that it can reach from what it was given. -/
namespace Inyandiko

open Source

/-- What a run is enclosed in: the world it starts from, the surfaces that belong to it, which include all
new ones, and the places of the heap that it holds. -/
structure Enclosure where
  base : World
  own : Nat → Prop
  held : Nat → Prop
  fresh : ∀ id, base.surfaces.size ≤ id → own id

namespace Enclosure

variable (E : Enclosure)

/-- The frames that are made in the run. -/
def At (frame : FrameId) : Prop := E.base.scopes.frames.size ≤ frame

/-- The values that the run has to do with. -/
abbrev Fine : Value → Prop := Value.Held E.held

/-- A frame that keeps to the run. -/
structure Rooted (frame : Frame) : Prop where
  outer : ∀ id ∈ frame.outer, E.At id
  bindings : ∀ value ∈ frame.bindings.values, E.Fine value

/-- Frames among which the old ones are as they were, and the new ones keep to the run. -/
structure Scoped (scopes : Scopes) : Prop where
  grown : E.base.scopes.frames.size ≤ scopes.frames.size
  kept : ∀ id < E.base.scopes.frames.size, scopes.frames[id]? = E.base.scopes.frames[id]?
  inner : ∀ id, E.At id → E.Rooted (scopes.frame id)

/-- A context that keeps to the run. -/
structure Enclosed (run : Context) : Prop where
  hooks : run.hooks = {}
  surface : ∀ id, run.surface = some id → E.own id
  dependencies : ∀ value ∈ run.dependencies.values, E.Fine value
  functions : ∀ name function, run.functions.get? name = some function → E.At function.frame
  exports : ∀ entry ∈ run.exports.values, E.At entry.1
  results : ∀ value ∈ run.results.toList, E.Fine value

/-- Contexts among which the old ones are as they were, and the new ones keep to the run. -/
structure Bound (contexts : Array Context) : Prop where
  grown : E.base.contexts.size ≤ contexts.size
  kept : ∀ id < E.base.contexts.size, contexts[id]? = E.base.contexts[id]?
  inner : ∀ id, E.base.contexts.size ≤ id → E.Enclosed (contexts[id]?.getD {})

/-- Surfaces among which those of others are as they were, and the run's own show what it holds. -/
structure Faced (surfaces : Array Surface) : Prop where
  grown : E.base.surfaces.size ≤ surfaces.size
  kept : ∀ id, ¬E.own id → surfaces[id]? = E.base.surfaces[id]?
  inner : ∀ id, E.own id → ∀ value ∈ (surfaces[id]?.getD {}).elements.values, E.Fine value

/-- A world in which nothing but the run's own things and the places it holds have changed. -/
structure Inside (world : World) : Prop where
  scopes : E.Scoped world.scopes
  contexts : E.Bound world.contexts
  surfaces : E.Faced world.surfaces
  heap : Heap.Guarded E.held E.base.heap world.heap
  events : world.events = E.base.events
  output : E.base.output.toList <+: world.output.toList
  log : E.base.log.toList <+: world.log.toList
  requests : E.base.requests.toList <+: world.requests.toList

variable {E}

section Scopes

variable {scopes : Scopes}

private theorem Rooted.bind {frame : Frame} (rooted : E.Rooted frame) (name : String) {value : Value}
    (fine : E.Fine value)
    (consts : List String) : E.Rooted { frame with bindings := frame.bindings.insert name value, consts } where
  outer := rooted.outer
  bindings other member := by
    rcases Table.mem_values_insert member with rfl | member
    · exact fine
    · exact rooted.bindings other member

private theorem Scoped.modify (sound : E.Scoped scopes) {id : FrameId} (here : E.At id) {change : Frame → Frame}
    (keeps : ∀ frame, E.Rooted frame → E.Rooted (change frame)) : E.Scoped (scopes.modify id change) where
  grown := by
    rw [Scopes.size_modify]
    exact sound.grown
  kept other old := by
    rw [← sound.kept other old]
    exact Array.getElem?_setIfInBounds_ne (Nat.ne_of_gt (Nat.lt_of_lt_of_le old here))
  inner other new := by
    by_cases same : other = id
    · subst same
      rcases Nat.lt_or_ge other scopes.frames.size with inside | outside
      · rw [Scopes.frame_modify_self scopes change inside]
        exact keeps _ (sound.inner other new)
      · rw [Scopes.modify_of_le scopes change outside]
        exact sound.inner other new
    · rw [Scopes.frame_modify_of_ne scopes change same]
      exact sound.inner other new

private theorem Scoped.chain (sound : E.Scoped scopes) {frame : FrameId} (here : E.At frame) :
    ∀ id ∈ scopes.chain frame, E.At id :=
  List.forall_mem_cons.2 ⟨here, (sound.inner frame here).outer⟩

private theorem Scoped.within (sound : E.Scoped scopes) : scopes.Within E.At E.Fine :=
  fun _ here id member => (sound.inner id (sound.chain here id member)).bindings

private theorem Scoped.push (sound : E.Scoped scopes) {bindings : Table Value}
    (fine : ∀ value ∈ bindings.values, E.Fine value)
    {parent : Option FrameId} (here : ∀ id, parent = some id → E.At id) :
    E.Scoped (scopes.push bindings parent).2 where
  grown := by
    rw [Scopes.size_push]
    exact Nat.le_succ_of_le sound.grown
  kept other old := by
    rw [← sound.kept other old]
    simp only [Scopes.push,Array.getElem?_push,if_neg (Nat.ne_of_lt (Nat.lt_of_lt_of_le old sound.grown))]
  inner other new := by
    simp only [Scopes.frame,Scopes.push,Array.getElem?_push]
    split
    · refine ⟨fun id member => ?_, fine⟩
      cases parent with
      | none => cases member
      | some parent => exact sound.chain (here parent rfl) id member
    · exact sound.inner other new

private theorem Scoped.declare (sound : E.Scoped scopes) {frame : FrameId} (here : E.At frame) {name : String}
    {value : Value} (fine : E.Fine value) {isConst : Bool} {after : Scopes}
    (declared : scopes.declare frame name value isConst = .ok after) :
    E.Scoped after := by
  obtain ⟨-, rfl⟩ := Scopes.declare_cases declared
  exact sound.modify here fun _ rooted => rooted.bind name fine _

private theorem Scoped.assign (sound : E.Scoped scopes) {frame : FrameId} (here : E.At frame) {name : String}
    {value : Value} (fine : E.Fine value) {after : Scopes} (assigned : scopes.assign frame name value = .ok after) :
    E.Scoped after := by
  -- frames around one of the run are of the run, too
  obtain ⟨owner, rfl, ⟨found, -⟩ | ⟨rfl, -⟩⟩ := Scopes.assign_cases assigned
  · have near := sound.chain here owner (List.mem_of_find?_eq_some found)
    exact sound.modify near fun _ rooted => rooted.bind name fine _
  · exact sound.modify here fun _ rooted => rooted.bind name fine _

private theorem Scoped.erase (sound : E.Scoped scopes) {frame : FrameId} (here : E.At frame) {name : String}
    {after : Scopes} (erased : scopes.erase frame name = .ok after) : E.Scoped after := by
  unfold Scopes.erase at erased
  split at erased
  · cases erased
    refine sound.modify here fun frame rooted => ⟨rooted.outer, fun value member => ?_⟩
    exact rooted.bindings value (Table.mem_values_erase member)
  · cases erased

end Scopes

section Contexts

variable {contexts : Array Context}

private theorem Bound.modify (sound : E.Bound contexts) {id : ContextId} (here : E.base.contexts.size ≤ id)
    {change : Context → Context} (keeps : ∀ run, E.Enclosed run → E.Enclosed (change run)) :
    E.Bound (contexts.modify id change) where
  grown := by
    rw [Array.size_modify]
    exact sound.grown
  kept other old := by
    rw [← sound.kept other old,Array.getElem?_modify,if_neg (Nat.ne_of_gt (Nat.lt_of_lt_of_le old here))]
  inner other new := by
    have known := sound.inner other new
    rw [Array.getElem?_modify]
    split
    · cases found : contexts[other]? with
      | none =>
        rw [found] at known
        exact known
      | some run =>
        rw [found] at known
        exact keeps run known
    · exact known

private theorem Bound.push (sound : E.Bound contexts) {run : Context} (enclosed : E.Enclosed run) :
    E.Bound (contexts.push run) where
  grown := by
    rw [Array.size_push]
    exact Nat.le_succ_of_le sound.grown
  kept other old := by
    rw [← sound.kept other old,Array.getElem?_push,if_neg (Nat.ne_of_lt (Nat.lt_of_lt_of_le old sound.grown))]
  inner other new := by
    rw [Array.getElem?_push]
    split
    · exact enclosed
    · exact sound.inner other new

end Contexts

section Surfaces

variable {surfaces : Array Surface}

private theorem Faced.set (sound : E.Faced surfaces) {id : Nat} (own : E.own id) {surface : Surface}
    (fine : ∀ value ∈ surface.elements.values, E.Fine value) : E.Faced (surfaces.setIfInBounds id surface) where
  grown := by
    rw [Array.size_setIfInBounds]
    exact sound.grown
  kept other foreign := by
    have different : id ≠ other := fun same => foreign (same ▸ own)
    rw [← sound.kept other foreign,Array.getElem?_setIfInBounds_ne different]
  inner other shown := by
    rw [Array.getElem?_setIfInBounds]
    split
    · split
      · exact fine
      · exact nofun
    · exact sound.inner other shown

private theorem Faced.push (sound : E.Faced surfaces) {surface : Surface}
    (fine : ∀ value ∈ surface.elements.values, E.Fine value) : E.Faced (surfaces.push surface) where
  grown := by
    rw [Array.size_push]
    exact Nat.le_succ_of_le sound.grown
  kept other foreign := by
    have old : other ≠ surfaces.size := fun same => foreign (E.fresh other (same ▸ sound.grown))
    rw [← sound.kept other foreign,Array.getElem?_push,if_neg old]
  inner other shown := by
    rw [Array.getElem?_push]
    split
    · exact fine
    · exact sound.inner other shown

private theorem fine_step {before after : Surface} (step : Surface.Step before after)
    (fine : ∀ value ∈ before.elements.values, E.Fine value) : ∀ value ∈ after.elements.values, E.Fine value := by
  cases step with
  | alert message => exact fine
  | write written =>
    obtain ⟨_, _, written⟩ := ok_of_bind written
    cases written
    intro value member
    -- what scripts put on a surface is a text
    rcases Table.mem_values_insert member with rfl | member
    · exact Value.held_flat (by simp)
    · exact fine value member
  | style styled =>
    obtain ⟨_, _, styled⟩ := ok_of_bind styled
    cases styled
    exact fine
  | listen bound =>
    obtain ⟨_, _, bound⟩ := ok_of_bind bound
    cases bound
    exact fine

end Surfaces

/-- A computation of the run stays inside and gives values that the run has to do with. -/
def Keeps (E : Enclosure) (context : ContextId) {α : Type} [Carries α] (work : Exec α) : Prop :=
  E.base.contexts.size ≤ context → ∀ world, E.Inside world →
    E.Inside (work world).2 ∧ ∀ value, (work world).1 = .ok value → Carries.All E.Fine value

namespace Keeps

variable {context : ContextId} {α β : Type} [Carries α] [Carries β]

private theorem pure {value : α} (fine : Carries.All E.Fine value) : E.Keeps context (Pure.pure value) :=
  fun _ _ inside => ⟨inside, fun _ same => Except.ok.inj same ▸ fine⟩

private theorem throw (halt : Halt) : E.Keeps context
    (MonadExcept.throw halt : Exec α) := fun _ _ inside => ⟨inside, nofun⟩

private theorem bind {first : Exec α} {next : α → Exec β} (head : E.Keeps context first)
    (tail : ∀ value, Carries.All E.Fine value → E.Keeps context (next value)) :
    E.Keeps context (first >>= next) := by
  intro here world inside
  obtain ⟨begun, fine⟩ := head here world inside
  rw [Exec.bind_run]
  rcases result : first world with ⟨halt | value, after⟩
  · rw [result] at begun
    exact ⟨begun, nofun⟩
  · rw [result] at begun fine
    exact tail value (fine value rfl) here after begun

private theorem look {β : Type} {view : Exec β} {next : β → Exec α} {answer : World → β}
    (run : ∀ world, view world = (.ok (answer world), world))
    (tail : E.base.contexts.size ≤ context → ∀ world, E.Inside world → E.Keeps context (next (answer world))) :
    E.Keeps context (view >>= next) := by
  intro here world inside
  rw [Exec.bind_run,run]
  exact tail here world inside here world inside

private theorem onHeap {host : Host} {confined : host.ConfinedTo E.held} {step : HeapM α}
    (guarded : (Likeness.guarded confined E.base.heap).Rel step step) : E.Keeps context (Exec.onHeap step) := by
  intro _ world inside
  obtain ⟨ends, fine⟩ := guarded world.heap world.heap ⟨rfl, inside.heap⟩
  rw [Exec.onHeap_run]
  cases ended : step world.heap with
  | error halt => exact ⟨inside, nofun⟩
  | ok result =>
    rw [ended] at ends fine
    cases ends with
    | ok value alike => exact ⟨{ inside with heap := alike.2 }, fun _ same => Except.ok.inj same ▸ fine _ _ rfl⟩

private theorem family {setup : Setup} (confined : setup.ConfinedTo E.held) {family : Family}
    (given : setup.Replaces family) (line : Line) {names : Table Value}
    (visible : ∀ value ∈ names.values, E.Fine value) :
    E.Keeps context (Exec.onHeap (setup.host.family family line names)) := by
  intro _ world inside
  rw [Exec.onHeap_run]
  cases ended : setup.host.family family line names world.heap with
  | error halt => exact ⟨inside, nofun⟩
  | ok result =>
    obtain ⟨fine, after⟩ := confined.family inside.heap.toClosed given visible ended
    exact ⟨{ inside with heap := inside.heap.trans after }, fun _ same => Except.ok.inj same ▸ fine⟩

private theorem allocate {object : Object} (fine : Carries.All E.Fine object) :
    E.Keeps context (Exec.onHeap (Inyandiko.allocate object)) := by
  intro _ world inside
  refine ⟨{ inside with heap := inside.heap.trans (inside.heap.toClosed.alloc fine) }, fun value same => ?_⟩
  cases same
  exact Carries.all_value.2 (Value.held_ref.2 (inside.heap.fresh _ (Nat.le_refl _)))

private theorem askHeap {question : Heap → Except Halt α} (fine : ∀ data : α, Carries.All E.Fine data) :
    E.Keeps context (Exec.askHeap question) := by
  intro _ world inside
  rw [Exec.askHeap_run]
  exact ⟨inside, fun value _ => fine value⟩

private theorem onScopes {change : Scopes → Except Halt Scopes}
    (keeps : ∀ scopes after, E.Scoped scopes → change scopes = .ok after → E.Scoped after) :
    E.Keeps context (Exec.onScopes change) := by
  intro _ world inside
  rw [Exec.onScopes_run]
  cases changed : change world.scopes with
  | error halt => exact ⟨inside, nofun⟩
  | ok after => exact ⟨{ inside with scopes := keeps _ _ inside.scopes changed }, fun _ _ => Carries.all_unit⟩

private theorem modifyContext {change : Context → Context} (keeps : ∀ run, E.Enclosed run → E.Enclosed (change run)) :
    E.Keeps context (Exec.modifyContext context change) :=
  fun here _ inside => ⟨{ inside with contexts := inside.contexts.modify here keeps }, fun _ _ => Carries.all_unit⟩

private theorem onSurface {id : Nat} (own : E.own id) {change : Surface → Except Halt Surface}
    (step : ∀ before after, change before = .ok after → Surface.Step before after) :
    E.Keeps context (Exec.onSurface id change) := by
  intro _ world inside
  rw [Exec.onSurface_run]
  cases changed : change (world.surfaces[id]?.getD {}) with
  | error halt => exact ⟨inside, nofun⟩
  | ok after =>
    have fine := fine_step (step _ _ changed) (inside.surfaces.inner id own)
    exact ⟨{ inside with surfaces := inside.surfaces.set own fine }, fun _ _ => Carries.all_unit⟩

private theorem log (level : Level) (component : Component) (message : String) :
    E.Keeps context (Exec.log level component message) := by
  refine fun _ world inside => ⟨{ inside with log := inside.log.trans ?_ }, fun _ _ => Carries.all_unit⟩
  exact ⟨[⟨level, component, message⟩], (Array.toList_push ..).symm⟩

private theorem declare {frame : FrameId} (here : E.At frame) (name : String) {value : Value} (fine : E.Fine value)
    (isConst : Bool) : E.Keeps context (Exec.onScopes (·.declare frame name value isConst)) :=
  onScopes fun _ _ sound declared => sound.declare here fine declared

private theorem assign {frame : FrameId} (here : E.At frame) (name : String) {value : Value} (fine : E.Fine value) :
    E.Keeps context (Exec.onScopes (·.assign frame name value)) :=
  onScopes fun _ _ sound assigned => sound.assign here fine assigned

private theorem addExport (name source : String) {frame : FrameId} (here : E.At frame) :
    E.Keeps context (Machine.addExport name source frame context) :=
  modifyContext fun run known => { known with
    exports := fun entry member => by
      rcases Table.mem_values_insert member with rfl | member
      · exact here
      · exact known.exports entry member }

private theorem pushResult {value : Value} (fine : E.Fine value) :
    E.Keeps context (Exec.modifyContext context fun run => { run with results := run.results.push value }) :=
  modifyContext fun run known => { known with
    results := fun other member => by
      rw [Array.toList_push] at member
      rcases List.mem_append.1 member with member | member
      · exact known.results other member
      · exact List.mem_singleton.1 member ▸ fine }

private theorem define (header : FunctionHeader) (body : List Line) {frame : FrameId} (here : E.At frame) :
    E.Keeps context (Machine.define header body frame context) := by
  refine bind (modifyContext fun run known => { known with functions := fun name function found => ?_ }) fun _ _ =>
    log _ _ _
  rw [Table.get?_insert] at found
  split at found
  · cases found
    exact here
  · exact known.functions name function found

private theorem counted {work : Exec α} (inner : E.Keeps context work) :
    E.Keeps context (Machine.counted context work) := by
  intro here world inside
  have counting (depth : Context → Nat) (run : Context) (known : E.Enclosed run) :
      E.Enclosed { run with callDepth := depth run } :=
    ⟨known.hooks, known.surface, known.dependencies, known.functions, known.exports, known.results⟩
  rw [Machine.counted_run]
  have begun : E.Inside { world with contexts := world.contexts.modify context Machine.deeper } :=
    { inside with contexts := inside.contexts.modify here (counting _) }
  obtain ⟨done, fine⟩ := inner here _ begun
  exact ⟨{ done with contexts := done.contexts.modify here (counting _) }, fine⟩

private theorem located (line : Line) {work : Exec α} (inner : E.Keeps context work) :
    E.Keeps context (Machine.located line work) := by
  intro here world inside
  obtain ⟨done, fine⟩ := inner here world inside
  rw [Machine.located_run]
  refine ⟨done, fun value same => fine value ?_⟩
  cases ended : (work world).1 with
  | error halt =>
    rw [ended] at same
    cases same
  | ok other =>
    rw [ended] at same
    exact same

private theorem context_then {next : Context → Exec α} (tail : ∀ run, E.Enclosed run → E.Keeps context (next run)) :
    E.Keeps context (Exec.context context >>= next) :=
  look (Exec.context_run context) fun here _ inside => tail _ (inside.contexts.inner context here)

private theorem scopes_then {next : Scopes → Exec α}
    (tail : ∀ scopes, E.Scoped scopes → E.Keeps context (next scopes)) :
    E.Keeps context (Exec.scopes >>= next) :=
  look Exec.scopes_run fun _ _ inside => tail _ inside.scopes

private theorem heap_then {next : Heap → Exec α}
    (tail : ∀ heap, Heap.Guarded E.held E.base.heap heap → E.Keeps context (next heap)) :
    E.Keeps context (Exec.heap >>= next) :=
  look Exec.heap_run fun _ _ inside => tail _ inside.heap

private theorem surface {id : Nat} (own : E.own id) : E.Keeps context (Exec.surface id) :=
  fun _ _ inside => ⟨inside, fun _ same => Except.ok.inj same ▸ inside.surfaces.inner id own⟩

private theorem child {parent : FrameId} (here : E.At parent) {next : FrameId → Exec α}
    (tail : ∀ frame, E.At frame → E.Keeps context (next frame)) :
    E.Keeps context (Exec.childFrame parent >>= next) := by
  intro since world inside
  have pushed : E.Scoped (world.scopes.push .empty (some parent)).2 :=
    inside.scopes.push (by nofun) fun _ same => Option.some.inj same ▸ here
  exact tail world.scopes.frames.size inside.scopes.grown since _ { inside with scopes := pushed }

private theorem write (text : String) : E.Keeps context (Exec.write text) := by
  refine fun _ world inside => ⟨{ inside with output := inside.output.trans ?_ }, fun _ _ => Carries.all_unit⟩
  exact ⟨[text], (Array.toList_push ..).symm⟩

private theorem request (made : Request) : E.Keeps context (Exec.request made) := by
  refine fun _ world inside => ⟨{ inside with requests := inside.requests.trans ?_ }, fun _ _ => Carries.all_unit⟩
  exact ⟨[made], (Array.toList_push ..).symm⟩

private theorem stopIfInvalid (value : Value) (line : Line) :
    E.Keeps context (Machine.stopIfInvalid value line context) := by
  refine heap_then fun heap _ => context_then fun run _ => ?_
  split
  · exact throw _
  · exact pure Carries.all_unit

private theorem notify {hook : Option HookMode} (quiet : hook = none) (slot : String) (event : Event) :
    E.Keeps context (Machine.notify hook slot event) := by
  rw [quiet]
  exact pure Carries.all_unit

end Keeps

/-- Options for a run that stays inside. -/
structure Fit (E : Enclosure) (options : RunOptions) : Prop where
  hooks : options.hooks = {}
  surface : ∀ id, options.surface = some id → E.own id
  vars : ∀ value ∈ options.vars.values, E.Fine value
  dependencies : ∀ value ∈ options.dependencies.values, E.Fine value

namespace Fit

variable {options : RunOptions}

private theorem initialVariables (fit : E.Fit options) :
    ∀ value ∈ (Machine.initialVariables options).values, E.Fine value := by
  unfold Machine.initialVariables
  split
  · intro value member
    rcases Table.mem_values_insertAll member with member | member
    · exact fit.vars value member
    · obtain ⟨entry, among, rfl⟩ := List.mem_map.1 member
      exact fit.dependencies _ (List.mem_map_of_mem (List.mem_filter.1 among).1)
  · exact fit.vars

private theorem startContext (fit : E.Fit options) : E.Enclosed (Machine.startContext options) where
  hooks := fit.hooks
  surface := fit.surface
  dependencies := fit.dependencies
  functions := nofun
  exports := nofun
  results := nofun

private theorem opened (fit : E.Fit options) {world : World} (inside : E.Inside world) :
    E.Inside (world.opened options) := by
  have pushed : E.Scoped (world.scopes.push (Machine.initialVariables options) none).2 :=
    inside.scopes.push fit.initialVariables nofun
  exact { inside with scopes := pushed, contexts := inside.contexts.push fit.startContext }

end Fit

namespace Keeps

variable {context : ContextId}

private theorem result {root : FrameId} (here : E.At root) (failedLine : Option String) :
    E.Keeps context (Machine.result root context failedLine) := by
  refine context_then fun run known => scopes_then fun scopes sound => pure fun value member => ?_
  have shown {frame : FrameId} (inside : E.At frame) (name : String) :
      E.Fine ((scopes.resolve? frame name).getD .null) := by
    cases found : scopes.resolve? frame name with
    | none => exact Value.held_flat (by simp)
    | some value => exact sound.within.resolve? inside found
  rcases List.mem_append.1 member with member | member
  · rcases List.mem_append.1 member with member | member
    · exact (sound.inner root here).bindings value member
    · obtain ⟨entry, among, rfl⟩ := List.mem_map.1 member
      obtain ⟨⟨_, frame, name⟩, listed, rfl⟩ := List.mem_map.1 among
      exact shown (known.exports (frame, name) (List.mem_map_of_mem listed)) name
  · exact known.results value member

private theorem conclude {root : FrameId} (here : E.At root) (outcome : Except Halt (Option Value)) :
    E.Keeps context (Machine.conclude {} root context outcome) := by
  rcases outcome with halt | signal
  · cases halt with
    | invalid line => exact bind (log _ _ _) fun _ _ => result here _
    | _ => exact bind (notify rfl _ _) fun _ _ => throw _
  · exact context_then fun _ _ => bind (log _ _ _) fun _ _ => result here _

private theorem session {options : RunOptions} (fit : E.Fit options) {work : FrameId → ContextId → Exec (Option Value)}
    (inner : ∀ root context, E.At root → E.Keeps context (work root context)) :
    E.Keeps context (Machine.session options work) := by
  intro _ world inside
  have begun := inner world.scopes.frames.size world.contexts.size inside.scopes.grown inside.contexts.grown
    (world.opened options) (fit.opened inside)
  rw [Machine.session_run,fit.hooks]
  exact conclude inside.scopes.grown _ inside.contexts.grown _ begun.1

end Keeps

private theorem nestedOptions_run {overrides : Overrides} (fine : Carries.All E.Fine overrides) {frame : FrameId}
    (here : E.At frame) {context : ContextId} (since : E.base.contexts.size ≤ context) {world : World}
    (inside : E.Inside world) :
    ∃ options after, Machine.nestedOptions overrides frame context world = (.ok options, after) ∧
      E.Fit options ∧ E.Inside after := by
  have known := inside.contexts.inner context since
  have names : ∀ value ∈ ((world.scopes.snapshot frame).merge overrides.vars).values, E.Fine value := by
    intro value member
    rcases Table.mem_values_merge member with member | member
    · exact Scopes.mem_snapshot (inside.scopes.within frame here) value member
    · exact fine value (List.mem_append_left _ (List.mem_append_left _ member))
  have lent : ∀ value ∈ ((world.contextAt context).dependencies.merge overrides.dependencies).values,
      E.Fine value := by
    intro value member
    rcases Table.mem_values_merge member with member | member
    · exact known.dependencies value member
    · exact fine value (List.mem_append_left _ (List.mem_append_right _ member))
  obtain ⟨vars, dependencies, commands, stop, _ | elements⟩ := overrides
  · exact ⟨_, world, rfl, ⟨rfl, known.surface, names, lent⟩, inside⟩
  · refine ⟨_, { world with surfaces := world.surfaces.push { elements } }, rfl, ⟨rfl, ?_, names, lent⟩,
      { inside with surfaces := inside.surfaces.push fun value member => fine value (List.mem_append_right _ member) }⟩
    intro id same
    exact E.fresh id (Option.some.inj same ▸ inside.surfaces.grown)

end Enclosure

/-- Everything that machines do in a run keeps inside, if the host and the families that stand in for the
built-in ones do. -/
def Discipline.enclosing (setup : Setup) (E : Enclosure) (confined : setup.ConfinedTo E.held) :
    Discipline (id : List Line → List Line) setup where
  hosted := true
  Rel context _ _ _ one _ := E.Keeps context one
  Halts _ := True
  Alike heap heap' := heap = heap' ∧ Heap.Guarded E.held E.base.heap heap
  Known := E.Enclosed
  At := E.At
  On := E.own
  Fine := E.Fine
  Body _ := True
  Does := Action.Within E.held
  Fit := E.Fit
  pure := .pure
  throw _ := .throw _
  bind := .bind
  fault _ := trivial
  placed _ := trivial
  tooDeep := trivial
  endless := trivial
  tooLarge := trivial
  flat := Value.held_flat
  answers alike := .of_eq alike.1
  closed alike _ fine _ found := alike.2.toClosed.entries fine found
  heap tail := .heap_then fun heap guarded => tail heap heap ⟨rfl, guarded⟩
  scopes tail := .scopes_then fun scopes sound => tail scopes sound.within
  evaluate visible token := .onHeap ((Likeness.guarded confined.toConfinedTo E.base.heap).evaluate visible token)
  hostText _ := .askHeap fun _ => Carries.all_string
  displayText _ := .askHeap fun _ => Carries.all_string
  method fine name := .onHeap ((Likeness.guarded confined.toConfinedTo E.base.heap).method fine name)
  member fine name := .onHeap ((Likeness.guarded confined.toConfinedTo E.base.heap).member fine name)
  call fine given := .onHeap ((Likeness.guarded confined.toConfinedTo E.base.heap).callValue fine given)
  context _ tail := .context_then tail
  dependencies known := known.dependencies
  facing known _ found := known.surface _ found
  within known _ _ found := known.functions _ _ found
  declare := .declare
  assign := .assign
  child here _ _ tail := .child here tail
  pushResult := .pushResult
  exportBound name source _ here _ _ _ _ _ _ tail failed := .scopes_then fun scopes _ => by
    split
    · exact .bind (.addExport name source here) fun _ _ => tail
    · exact failed
  exportDeclared here name _ fine isConst :=
    .bind (.declare here name fine isConst) fun _ _ => .addExport name name here
  exportAssigned here name _ fine := .bind (.assign here name fine) fun _ _ => .addExport name name here
  define header _ _ _ here := .define header _ here
  log := .log
  write := .write
  surface := .surface
  onSurface own _ step _ := .onSurface own step
  stopIfInvalid := .stopIfInvalid
  located line _ _ inner := .located line inner
  replaced given line _ visible := .family confined given line visible
  allocate _ _ := .allocate
  document _ response :=
    .onHeap ((Likeness.guarded confined.toConfinedTo E.base.heap).body (fun _ _ => trivial) response)
  request _ := .request
  unreachable _ := trivial
  timeout _ _ _ _ := trivial
  plain unhosted := nomatch unhosted
  handler _ _ _ _ _ args dependencies := confined.handler args dependencies
  gives does := does
  fails _ := trivial
  examine does heap _ alike := ⟨congrArg _ alike.1.symm, does heap alike.2.toClosed⟩
  make does := ⟨.allocate does.1, does.2⟩
  visible does _ fine := does _ fine
  hostAssign does _ here := ⟨.assign here _ does.1, does.2⟩
  hostErase does _ here := ⟨.onScopes fun _ _ sound erased => sound.erase here erased, does⟩
  nested does _ here _ _ _ _ tail := fun since world inside => by
    obtain ⟨options, after, run, fit, reached⟩ := Enclosure.nestedOptions_run does.1 here since inside
    rw [Exec.bind_run,run]
    exact tail options fit since after reached
  resumes does _ fine := does.2 _ fine
  session _ _ fit _ _ inner := .session fit inner

section Enclosing

variable {setup : Setup} {E : Enclosure} {confined : setup.ConfinedTo E.held}

private theorem Discipline.enclosing_counts : (enclosing setup E confined).Counts :=
  ⟨trivial, fun inner => Enclosure.Keeps.counted inner⟩

private theorem Discipline.enclosing_tells : (enclosing setup E confined).Tells where
  start name line := by
    cases name with
    | none => exact Enclosure.Keeps.pure Carries.all_unit
    | some name => exact Enclosure.Keeps.context_then fun run known => .notify (by rw [known.hooks]) _ _
  finish name line value := by
    cases name with
    | none => exact Enclosure.Keeps.pure Carries.all_unit
    | some name =>
      exact Enclosure.Keeps.heap_then fun heap _ => .context_then fun run known => .notify (by rw [known.hooks]) _ _

end Enclosing

/-- What a run inside another one is given: the names that are visible where it is started, dependencies,
what its surface shows, and what families of commands give that stand in for the built-in ones. -/
inductive Machine.Lent (setup : Setup) (overrides : Overrides) (frame : FrameId) (context : ContextId)
    (world : World) (value : Value) : Prop
  | name (member : value ∈ ((world.scopes.snapshot frame).merge overrides.vars).values)
  | dependency (member : value ∈ ((world.contextAt context).dependencies.merge overrides.dependencies).values)
  | made {elements : Table Value} (given : overrides.elements = some elements) (member : value ∈ elements.values)
  | shared {id : Nat} (inherited : overrides.elements = none) (facing : (world.contextAt context).surface = some id)
    (member : value ∈ (world.surfaces[id]?.getD {}).elements.values)
  | family (supplied : setup.Supplies value)

/-- The values that can be reached from some values through the objects of a heap. -/
inductive Heap.Reaches (heap : Heap) (given : Value → Prop) : Value → Prop
  | start {value : Value} (known : given value) : Reaches heap given value
  | inside {value inner : Value} (reached : Reaches heap given value) {object : Object}
    (found : heap.object? value = some object) (member : inner ∈ Carries.values object) : Reaches heap given inner

private theorem Heap.closed_reaches (heap : Heap) (given : Value → Prop) :
    heap.Closed fun place => heap.objects.size ≤ place ∨ heap.Reaches given (.ref place) where
  fresh _ free := .inl free
  inside place held object found value member inner same := by
    subst same
    rcases held with free | reached
    · rw [Array.getElem?_eq_none free] at found
      cases found
    · exact .inr (reached.inside found member)

/-- What a run inside another one is enclosed in. It may share the surface of the outer one. -/
def Enclosure.nested (overrides : Overrides) (context : ContextId) (world : World) (held : Nat → Prop) :
    Enclosure where
  base := { world with
    surfaces := overrides.elements.elim world.surfaces fun elements => world.surfaces.push { elements } }
  own id := overrides.elements = none ∧ (world.contextAt context).surface = some id ∨ world.surfaces.size ≤ id
  held
  fresh id new := by
    right
    cases found : overrides.elements with
    | none =>
      rw [found] at new
      exact new
    | some elements =>
      simp only [found,Option.elim,Array.size_push] at new
      exact Nat.le_of_succ_le new

private theorem Enclosure.surfaces_nested (overrides : Overrides) (context : ContextId) {world : World}
    (held : Nat → Prop)
    {id : Nat} (old : id < world.surfaces.size) :
    (nested overrides context world held).base.surfaces[id]? = world.surfaces[id]? := by
  cases found : overrides.elements with
  | none => simp only [nested,found,Option.elim]
  | some elements => simp only [nested,found,Option.elim,Array.getElem?_push,if_neg (Nat.ne_of_lt old)]

section Nested

variable {setup : Setup} {overrides : Overrides} {frame : FrameId} {context : ContextId} {world : World}
  {held : Nat → Prop} (lent : ∀ value, Machine.Lent setup overrides frame context world value → value.Held held)
include lent

private theorem Enclosure.inside_nested (closed : world.heap.Closed held) :
    (nested overrides context world held).Inside (nested overrides context world held).base where
  scopes := ⟨Nat.le_refl _, fun _ _ => rfl, fun id new => by
    rw [Scopes.frame_of_le _ new]
    exact ⟨nofun, nofun⟩⟩
  contexts := ⟨Nat.le_refl _, fun _ _ => rfl, fun id new => by
    rw [Array.getElem?_eq_none new]
    exact ⟨rfl, nofun, nofun, nofun, nofun, nofun⟩⟩
  surfaces := ⟨Nat.le_refl _, fun _ _ => rfl, fun id own value member => by
    cases found : overrides.elements with
    | none =>
      simp only [nested,found,Option.elim] at own member
      rcases own with ⟨-, facing⟩ | new
      · exact lent value (.shared found facing member)
      · rw [Array.getElem?_eq_none new] at member
        cases member
    | some elements =>
      simp only [nested,found,Option.elim,Array.getElem?_push] at own member
      obtain ⟨none, -⟩ | new := own
      · cases none
      split at member
      · exact lent value (.made found member)
      · rw [Array.getElem?_eq_none new] at member
        cases member⟩
  heap := closed.guarded
  events := rfl
  output := List.prefix_rfl
  log := List.prefix_rfl
  requests := List.prefix_rfl

private theorem Enclosure.fit_nested :
    ∃ options, Machine.nestedOptions overrides frame context world =
        (.ok options, (nested overrides context world held).base) ∧
      (nested overrides context world held).Fit options := by
  have names : ∀ value ∈ ((world.scopes.snapshot frame).merge overrides.vars).values, value.Held held :=
    fun value member => lent value (.name member)
  have dependencies : ∀ value ∈ ((world.contextAt context).dependencies.merge overrides.dependencies).values,
      value.Held held := fun value member => lent value (.dependency member)
  obtain ⟨_, _, _, _, _ | elements⟩ := overrides
  · exact ⟨_, rfl, rfl, fun _ facing => .inl ⟨rfl, facing⟩, names, dependencies⟩
  · exact ⟨_, rfl, rfl, fun _ made => .inr (Nat.le_of_eq (Option.some.inj made)), names, dependencies⟩

private theorem Enclosure.nested_inside (confined : setup.ConfinedTo held) (closed : world.heap.Closed held)
    (depth : Nat) (source : String) :
    let ended := (Machine.nestedOptions overrides frame context >>= (Machine.level setup depth).run source) world
    (nested overrides context world held).Inside ended.2 ∧
      ∀ record, ended.1 = .ok record → Carries.All (Value.Held held) record := by
  obtain ⟨options, run, fit⟩ := fit_nested lent
  have agree := (Discipline.enclosing setup (nested overrides context world held) confined).agree_level
    Discipline.enclosing_counts Discipline.enclosing_tells (fun _ => trivial) id depth
  have ran := agree.run rfl source fit world.contexts.size none (Nat.le_refl _) _ (inside_nested lent closed)
  rw [Exec.bind_run,run]
  exact ran

end Nested

/-- A run inside another one is isolated: all frames and contexts that were there are as they were, nothing is
told to hooks, and what was written is still there. Of the surfaces only the one that is shared may have
changed. With a host that has no hold on the heap itself, only objects in reach of what the run was given
have changed, and the record leads to no others but new ones. -/
structure Machine.Isolated (setup : Setup) (overrides : Overrides) (frame : FrameId) (context : ContextId)
    (world : World) (ended : Except Halt Record × World) : Prop where
  frames : ∀ id < world.scopes.frames.size, ended.2.scopes.frames[id]? = world.scopes.frames[id]?
  contexts : ∀ id < world.contexts.size, ended.2.contexts[id]? = world.contexts[id]?
  surfaces : ∀ id < world.surfaces.size,
    (overrides.elements = none → (world.contextAt context).surface ≠ some id) →
      ended.2.surfaces[id]? = world.surfaces[id]?
  events : ended.2.events = world.events
  output : world.output.toList <+: ended.2.output.toList
  log : world.log.toList <+: ended.2.log.toList
  requests : world.requests.toList <+: ended.2.requests.toList
  objects : setup.Confined → ∀ place < world.heap.objects.size,
    ¬world.heap.Reaches (Lent setup overrides frame context world) (.ref place) →
      ended.2.heap.objects[place]? = world.heap.objects[place]?
  record : setup.Confined → ∀ record, ended.1 = .ok record → ∀ place, .ref place ∈ Carries.values record →
    world.heap.objects.size ≤ place ∨ world.heap.Reaches (Lent setup overrides frame context world) (.ref place)

/-- Runs inside other ones are isolated, in every world and however they end. The command of the host that
asks for one goes on with its record, or stops with what stopped it. -/
theorem nested_runs_are_isolated (setup : Setup) (depth : Nat) (source : String) (overrides : Overrides)
    (frame : FrameId) (context : ContextId) :
    let machine := Machine.level setup depth
    let nested := Machine.nestedOptions overrides frame context >>= machine.run source
    (∀ next, machine.perform frame context (.run source overrides next) =
      nested >>= fun record => machine.perform frame context (next record)) ∧
    ∀ world, Machine.Isolated setup overrides frame context world (nested world) := by
  refine ⟨fun next => (bind_assoc ..).symm, fun world => ?_⟩
  -- with all places held nothing is asked of the host, and everything but the heap is settled
  have everything : ∀ value, Machine.Lent setup overrides frame context world value → value.Held fun _ => True :=
    fun _ _ _ _ => trivial
  obtain ⟨plain, -⟩ := Enclosure.nested_inside everything setup.confinedTo_everywhere
    world.heap.closed_everywhere depth source
  have lent (value : Value) (given : Machine.Lent setup overrides frame context world value) : value.Held fun place =>
      world.heap.objects.size ≤ place ∨
        world.heap.Reaches (Machine.Lent setup overrides frame context world) (.ref place) :=
    fun place same => .inr (.start (same ▸ given))
  have reached (confined : setup.Confined) := Enclosure.nested_inside lent
    (confined _ fun value supplied => lent value (.family supplied))
    (world.heap.closed_reaches (Machine.Lent setup overrides frame context world)) depth source
  exact {
    frames := plain.scopes.kept
    contexts := plain.contexts.kept
    surfaces := fun id old foreign => by
      refine (plain.surfaces.kept id ?_).trans (Enclosure.surfaces_nested overrides context _ old)
      rintro (⟨inherited, facing⟩ | new)
      · exact foreign inherited facing
      · exact absurd old (Nat.not_lt_of_le new)
    events := plain.events
    output := plain.output
    log := plain.log
    requests := plain.requests
    objects := fun confined place old apart =>
      (reached confined).1.heap.apart place fun held => held.elim (Nat.not_le_of_lt old) apart
    record := fun confined record done place member => (reached confined).2 record done _ member place rfl }

/-- Of two lists only the one that the nested run is given changes. -/
theorem nested_runs_are_isolated_lists :
    let world : World := { heap := { objects := #[.list [], .list []] } }
    let overrides : Overrides := { vars := .ofList [("l", .ref 0)] }
    let ended := (Machine.nestedOptions overrides 0 0 >>=
      (Machine.level { host := Kit.host } 3).run "koresha(l, 'append', 2)") world
    ¬world.heap.Reaches (Machine.Lent { host := Kit.host } overrides 0 0 world) (.ref 1) ∧
      ended.2.heap.items? (.ref 0) = some [.int 2] ∧ ended.2.heap.objects[1]? = some (.list []) := by
  intro world overrides ended
  have own (family : Family) : ¬({ host := Kit.host } : Setup).Replaces family := by simp [Setup.Replaces]
  have reached (value : Value)
      (reach : world.heap.Reaches (Machine.Lent { host := Kit.host } overrides 0 0 world) value) :
      value = .ref 0 := by
    induction reach with
    | start known =>
      cases known with
      | name member => exact List.mem_singleton.1 member
      | dependency member => cases member
      | made given => cases given
      | shared _ facing => cases facing
      | family supplied => exact absurd supplied.choose_spec.choose_spec.1 (own _)
    | inside _ found member ih =>
      subst ih
      cases found
      cases member
  have apart : ¬world.heap.Reaches (Machine.Lent { host := Kit.host } overrides 0 0 world) (.ref 1) :=
    fun reach => nomatch reached _ reach
  have isolated :=
    (nested_runs_are_isolated { host := Kit.host } 3 "koresha(l, 'append', 2)" overrides 0 0).2 world
  exact ⟨apart, by decide +kernel, isolated.objects (Setup.confined_of_host Kit.confinedTo own) 1 (by decide) apart⟩

end Inyandiko
