import Mathlib.Logic.Relation
import Inyandiko.Host.Kit
import Inyandiko.Proofs.Discipline.Level
import Inyandiko.Proofs.Scope

/-! Constants and exports last. A run goes through the world step by step; as long as the host's
commands remove no names, every step keeps the names of all frames and the values of all constants,
and names are exported only where they are visible. So what a run exports has a value at its end and
ever after, whatever further runs and events do. -/
namespace Inyandiko

open Source

variable {Code : Type}

/-- Every handler in a table of commands is one of those allowed. -/
def Handled (allowed : String → Prop) (commands : Table String) : Prop :=
  ∀ name handler, commands.get? name = some handler → allowed handler

/-- A command of the host that removes no name, and has further scripts run only with commands that
are allowed. -/
def Action.KeepsNames (allowed : String → Prop) : Action → Prop
  | .done _ | .fail _ => True
  | .examine next => ∀ heap, (next heap).KeepsNames allowed
  | .make _ next => ∀ value, (next value).KeepsNames allowed
  | .visible next => ∀ names, (next names).KeepsNames allowed
  | .assign _ _ next => next.KeepsNames allowed
  | .erase _ _ => False
  | .run _ overrides next =>
    Handled allowed overrides.commands ∧ ∀ record, (next record).KeepsNames allowed

namespace Handled

variable {allowed : String → Prop}

private theorem empty : Handled allowed .empty := by
  intro name handler found
  simp [Table.get?,Table.empty] at found

private theorem insert {commands : Table String} (handled : Handled allowed commands) {name handler : String}
    (fine : allowed handler) : Handled allowed (commands.insert name handler) := by
  intro other found member
  rw [Table.get?_insert] at member
  split at member
  · cases member
    exact fine
  · exact handled other found member

private theorem merge {commands others : Table String} (handled : Handled allowed commands)
    (further : Handled allowed others) : Handled allowed (commands.merge others) := by
  have each : ∀ entry ∈ others.entries, allowed entry.2 := by
    intro entry member
    exact further entry.1 entry.2 (others.get?_of_mem member)
  unfold Table.merge Table.insertAll
  generalize others.entries = entries at each
  induction entries generalizing commands with
  | nil => exact handled
  | cons entry entries ih =>
    refine ih (handled.insert (each entry List.mem_cons_self)) fun other member => ?_
    exact each other (List.mem_cons_of_mem _ member)

end Handled

namespace World

/-- One thing that a script or the host does to the world. -/
inductive Step (allowed : String → Prop) : World Code → World Code → Prop
  /-- Frames, exports and commands are left as they are. -/
  | aside {before after : World Code} (scopes : after.scopes = before.scopes)
      (exports : ∀ id, (after.contextAt id).exports = (before.contextAt id).exports)
      (commands : ∀ id, (after.contextAt id).commands = (before.contextAt id).commands) :
      Step allowed before after
  | declare {world : World Code} {frame : FrameId} {name : String} {value : Value} {isConst : Bool}
      {scopes : Scopes} (declared : world.scopes.declare frame name value isConst = .ok scopes) :
      Step allowed world { world with scopes }
  | assign {world : World Code} {frame : FrameId} {name : String} {value : Value} {scopes : Scopes}
      (assigned : world.scopes.assign frame name value = .ok scopes) :
      Step allowed world { world with scopes }
  | child (world : World Code) (parent : FrameId) :
      Step allowed world { world with scopes := (world.scopes.child parent).2 }
  | share (world : World Code) (context : ContextId) (name : String) {frame : FrameId} {source : String}
      (bound : world.scopes.binds frame source) :
      Step allowed world { world with
        contexts := world.contexts.modify context fun run =>
          { run with exports := run.exports.insert name (frame, source) } }
  | opened (world : World Code) {options : RunOptions} (handled : Handled allowed options.commands) :
      Step allowed world (world.opened options)

/-- A world that another one leads to by steps. -/
def Reaches (allowed : String → Prop) : World Code → World Code → Prop :=
  Relation.ReflTransGen (Step allowed)

end World

/-- A frame that came out of another one without losing anything: it is where it was and has all its
names, and its constants have the values they had. -/
structure Frame.Lasting (before after : Frame) : Prop where
  outer : after.outer = before.outer
  names (name : String) : before.bindings.contains name → after.bindings.contains name
  consts : ∀ name ∈ before.consts, name ∈ after.consts
  values : ∀ name ∈ before.consts, after.bindings.get? name = before.bindings.get? name

private theorem Frame.Lasting.refl (frame : Frame) : frame.Lasting frame :=
  ⟨rfl, fun _ bound => bound, fun _ member => member, fun _ _ => rfl⟩

private theorem Frame.Lasting.trans {first second third : Frame} (one : first.Lasting second)
    (two : second.Lasting third) : first.Lasting third where
  outer := two.outer.trans one.outer
  names name bound := two.names name (one.names name bound)
  consts name member := two.consts name (one.consts name member)
  values name member := by
    rw [two.values name (one.consts name member),one.values name member]

/-- A frame that has a further name, or another value for a name that is no constant. -/
private theorem Frame.Lasting.set {frame : Frame} {name : String} (value : Value) (free : name ∉ frame.consts)
    {consts : List String} (more : ∀ const ∈ frame.consts, const ∈ consts) :
    frame.Lasting { frame with bindings := frame.bindings.insert name value, consts } where
  outer := rfl
  names other bound := by
    simp only [Table.contains,Table.get?_insert] at bound ⊢
    split
    · rfl
    · exact bound
  consts := more
  values other member := by
    have different : other ≠ name := fun same => free (same ▸ member)
    simp only [Table.get?_insert,if_neg different]

namespace Scopes

/-- Frames that came out of others without losing anything. -/
structure Lasting (before after : Scopes) : Prop where
  size : before.frames.size ≤ after.frames.size
  frames : ∀ id < before.frames.size, (before.frame id).Lasting (after.frame id)

namespace Lasting

private theorem refl (scopes : Scopes) : scopes.Lasting scopes := ⟨Nat.le_refl _, fun _ _ => .refl _⟩

private theorem trans {first second third : Scopes} (one : first.Lasting second) (two : second.Lasting third) :
    first.Lasting third where
  size := Nat.le_trans one.size two.size
  frames id inside :=
    (one.frames id inside).trans (two.frames id (Nat.lt_of_lt_of_le inside one.size))

private theorem binds {before after : Scopes} (lasting : before.Lasting after) {id : FrameId} {name : String}
    (bound : before.binds id name) : after.binds id name := by
  have held {owner : FrameId} (found : (before.frame owner).bindings.contains name) :
      owner < before.frames.size := inside_of_contains found
  obtain ⟨owner, member, found⟩ := binds_iff.mp bound
  refine binds_iff.mpr ⟨owner, ?_, (lasting.frames owner (held found)).names name found⟩
  by_cases inside : id < before.frames.size
  · simpa only [chain,(lasting.frames id inside).outer] using member
  · simp only [chain,frame_of_le before (Nat.not_lt.mp inside),List.mem_singleton] at member
    exact member ▸ List.mem_cons_self

private theorem modify {scopes : Scopes} {id : FrameId} {change : Frame → Frame}
    (lasting : (scopes.frame id).Lasting (change (scopes.frame id))) :
    scopes.Lasting (scopes.modify id change) := by
  refine ⟨Nat.le_of_eq (size_modify scopes id change).symm, fun other inside => ?_⟩
  by_cases same : other = id
  · subst same
    rwa [frame_modify_self scopes change inside]
  · rw [frame_modify_of_ne scopes change same]
    exact .refl _

private theorem push (scopes : Scopes) (bindings : Table Value) (parent : Option FrameId) :
    scopes.Lasting (scopes.push bindings parent).2 := by
  refine ⟨by rw [size_push]; exact Nat.le_succ _, fun id inside => ?_⟩
  rw [frame_push_of_lt scopes bindings parent inside]
  exact .refl _

end Lasting

/-- Every constant is bound in the frame where it is constant. -/
def ConstsBound (scopes : Scopes) : Prop :=
  ∀ id, ∀ name ∈ (scopes.frame id).consts, (scopes.frame id).bindings.contains name

private theorem ConstsBound.modify {scopes : Scopes} (bound : scopes.ConstsBound) {id : FrameId}
    {change : Frame → Frame}
    (changed : ∀ name ∈ (change (scopes.frame id)).consts,
      (change (scopes.frame id)).bindings.contains name) :
    (scopes.modify id change).ConstsBound := by
  intro other
  by_cases same : other = id
  · subst same
    by_cases inside : other < scopes.frames.size
    · rwa [frame_modify_self scopes change inside]
    · rw [modify_of_le scopes change (Nat.not_lt.mp inside)]
      exact bound other
  · rw [frame_modify_of_ne scopes change same]
    exact bound other

theorem ConstsBound.push {scopes : Scopes} (bound : scopes.ConstsBound) (bindings : Table Value)
    (parent : Option FrameId) : (scopes.push bindings parent).2.ConstsBound := by
  intro id name member
  rcases Nat.lt_trichotomy id scopes.frames.size with inside | new | outside
  · rw [frame_push_of_lt scopes bindings parent inside] at member ⊢
    exact bound id name member
  · rw [new,frame_push_self] at member
    cases member
  · rw [frame_of_le _ (by rw [size_push]; exact outside)] at member
    cases member

private theorem lasting_declare {before after : Scopes} {id : FrameId} {name : String} {value : Value}
    {isConst : Bool} (sound : before.ConstsBound)
    (declared : before.declare id name value isConst = .ok after) :
    before.Lasting after ∧ after.ConstsBound := by
  obtain ⟨free, rfl⟩ := declare_cases declared
  have unfixed : name ∉ (before.frame id).consts := by
    intro member
    rw [sound id name member] at free
    cases free
  have more : ∀ const ∈ (before.frame id).consts,
      const ∈ (if isConst then name :: (before.frame id).consts else (before.frame id).consts) := by
    intro const member
    split
    · exact List.mem_cons_of_mem _ member
    · exact member
  refine ⟨.modify (.set value unfixed more), sound.modify fun const member => ?_⟩
  simp only [Table.contains,Table.get?_insert]
  split
  · rfl
  · rename_i different
    refine sound id const ?_
    cases isConst with
    | false => exact member
    | true => exact (List.mem_cons.mp member).resolve_left different

/-- An assignment changes a variable where it is, or gives the frame at hand a new name. -/
theorem lasting_assign {before after : Scopes} {id : FrameId} {name : String} {value : Value}
    (sound : before.ConstsBound) (assigned : before.assign id name value = .ok after) :
    before.Lasting after ∧ after.ConstsBound := by
  obtain ⟨owner, rfl, cases⟩ := assign_cases assigned
  have unfixed : name ∉ (before.frame owner).consts := by
    rcases cases with ⟨-, changeable⟩ | ⟨rfl, unbound⟩
    · exact changeable
    · intro member
      have bound : before.binds owner name :=
        binds_iff.mpr ⟨owner, List.mem_cons_self, sound owner name member⟩
      simp [Scopes.binds,unbound] at bound
  refine ⟨.modify (.set value unfixed fun _ member => member), sound.modify fun const member => ?_⟩
  simp only [Table.contains,Table.get?_insert]
  split
  · rfl
  · exact sound owner const member

end Scopes

namespace World

variable {allowed : String → Prop}

/-- Constants are bound where they are constant, exports are visible from where they are exported,
and the commands of all runs are allowed. -/
structure Sound (allowed : String → Prop) (world : World Code) : Prop where
  consts : world.scopes.ConstsBound
  exports (context : ContextId) (name : String) (frame : FrameId) (source : String) :
    (world.contextAt context).exports.get? name = some (frame, source) →
      world.scopes.binds frame source
  commands (context : ContextId) : Handled allowed (world.contextAt context).commands

private theorem sound_empty : ({} : World Code).Sound allowed where
  consts id name member := by simp [Scopes.frame] at member
  exports context name frame source found := by simp [contextAt,Table.get?,Table.empty] at found
  commands context := by simpa [contextAt] using Handled.empty

private theorem Sound.scopes {world : World Code} (sound : world.Sound allowed) {scopes : Scopes}
    (lasting : world.scopes.Lasting scopes) (consts : scopes.ConstsBound) :
    Sound allowed { world with scopes } where
  consts := consts
  exports context name frame source found := lasting.binds (sound.exports context name frame source found)
  commands := sound.commands

private theorem Sound.share {world : World Code} (sound : world.Sound allowed) (context : ContextId)
    (name : String) {frame : FrameId} {source : String} (bound : world.scopes.binds frame source) :
    Sound allowed { world with
      contexts := world.contexts.modify context fun run =>
        { run with exports := run.exports.insert name (frame, source) } } where
  consts := sound.consts
  exports other exported home origin found := by
    simp only [contextAt,Array.getElem?_modify] at found
    split at found
    · cases known : world.contexts[other]? with
      | none => simp [known,Table.get?,Table.empty] at found
      | some run =>
        simp only [known,Option.map_some,Option.getD_some,Table.get?_insert] at found
        split at found
        · cases found
          exact bound
        · refine sound.exports other exported home origin ?_
          simpa only [contextAt,known,Option.getD_some] using found
    · exact sound.exports other exported home origin found
  commands other := by
    have same := World.view_modify (·.commands) world context other
      (fun run => { run with exports := run.exports.insert name (frame, source) }) fun _ => rfl
    exact Eq.subst (motive := Handled allowed) same.symm (sound.commands other)

private theorem lasting_opened (world : World Code) (options : RunOptions) :
    world.scopes.Lasting (world.opened options).scopes :=
  .push world.scopes (Machine.initialVariables options) none

private theorem Sound.opened {world : World Code} (sound : world.Sound allowed) {options : RunOptions}
    (handled : Handled allowed options.commands) : (world.opened options).Sound allowed where
  consts := sound.consts.push (Machine.initialVariables options) none
  exports context name frame source found := by
    refine (lasting_opened world options).binds ?_
    rw [contextAt_opened] at found
    split at found
    · simp [Machine.startContext,Table.get?,Table.empty] at found
    · exact sound.exports context name frame source found
  commands context := by
    rw [contextAt_opened]
    split
    · exact handled
    · exact sound.commands context

private theorem Step.sound {before after : World Code} (step : Step allowed before after)
    (sound : before.Sound allowed) : after.Sound allowed ∧ before.scopes.Lasting after.scopes := by
  cases step with
  | aside scopes exports commands =>
    refine ⟨⟨scopes ▸ sound.consts, fun context name frame source found => ?_, fun context => ?_⟩,
      scopes ▸ .refl _⟩
    · rw [exports context] at found
      rw [scopes]
      exact sound.exports context name frame source found
    · rw [commands context]
      exact sound.commands context
  | declare declared =>
    obtain ⟨lasting, consts⟩ := Scopes.lasting_declare sound.consts declared
    exact ⟨sound.scopes lasting consts, lasting⟩
  | assign assigned =>
    obtain ⟨lasting, consts⟩ := Scopes.lasting_assign sound.consts assigned
    exact ⟨sound.scopes lasting consts, lasting⟩
  | child parent =>
    have lasting := Scopes.Lasting.push before.scopes .empty (some parent)
    exact ⟨sound.scopes lasting (sound.consts.push _ _), lasting⟩
  | share context name bound => exact ⟨sound.share context name bound, .refl _⟩
  | opened handled => exact ⟨sound.opened handled, lasting_opened before _⟩

private theorem Reaches.sound {before after : World Code} (reached : before.Reaches allowed after)
    (sound : before.Sound allowed) : after.Sound allowed ∧ before.scopes.Lasting after.scopes := by
  induction reached with
  | refl => exact ⟨sound, .refl _⟩
  | tail _ step ih =>
    obtain ⟨sound, lasting⟩ := ih
    obtain ⟨sound, further⟩ := step.sound sound
    exact ⟨sound, lasting.trans further⟩

end World

/-- A computation that goes through the world by steps, however it ends, if its home is a frame that
exists. -/
def Proceeds (allowed : String → Prop) (home : Option FrameId) {α : Type} (work : ExecOf Code α) : Prop :=
  ∀ world : World Code, world.Sound allowed → (∀ frame ∈ home, frame < world.scopes.frames.size) →
    world.Reaches allowed (work world).2

namespace Proceeds

variable {allowed : String → Prop} {home : Option FrameId} {α β : Type}

private theorem aside {work : ExecOf Code α}
    (scopes : ∀ world, (work world).2.scopes = world.scopes)
    (exports : ∀ world id, ((work world).2.contextAt id).exports = (world.contextAt id).exports)
    (commands : ∀ world id, ((work world).2.contextAt id).commands = (world.contextAt id).commands) :
    Proceeds allowed home work :=
  fun world _ _ => .single (.aside (scopes world) (exports world) (commands world))

private theorem elsewhere {work : ExecOf Code α}
    (same : ∀ world, (work world).2.scopes = world.scopes ∧ (work world).2.contexts = world.contexts) :
    Proceeds allowed home work :=
  aside (fun world => (same world).1)
    (fun world id => by simp only [World.contextAt,(same world).2])
    (fun world id => by simp only [World.contextAt,(same world).2])

private theorem modifyContext (context : ContextId) {change : Context Code → Context Code}
    (exports : ∀ run, (change run).exports = run.exports)
    (commands : ∀ run, (change run).commands = run.commands) :
    Proceeds allowed home (Exec.modifyContext context change) :=
  aside (fun _ => rfl) (fun world id => World.view_modify (·.exports) world context id change exports)
    fun world id => World.view_modify (·.commands) world context id change commands

private theorem bind {first : ExecOf Code α} {next : α → ExecOf Code β} (head : Proceeds allowed home first)
    (tail : ∀ value, Proceeds allowed home (next value)) : Proceeds allowed home (first >>= next) := by
  intro world sound inside
  have begun := head world sound inside
  rw [Exec.bind_run]
  rcases result : first world with ⟨halt | value, after⟩
  · rwa [result] at begun
  · rw [result] at begun
    obtain ⟨sound, lasting⟩ := begun.sound sound
    exact begun.trans (tail value after sound fun frame member =>
      Nat.lt_of_lt_of_le (inside frame member) lasting.size)

private theorem onHeap (step : HeapM α) : Proceeds allowed home (Exec.onHeap step : ExecOf Code α) := by
  refine elsewhere fun world => ?_
  rw [Exec.onHeap_run]
  split <;> exact ⟨rfl, rfl⟩

private theorem declare (frame : FrameId) (name : String) (value : Value) (isConst : Bool) :
    Proceeds allowed home
      (Exec.onScopes (·.declare frame name value isConst) : ExecOf Code Unit) := by
  intro world sound inside
  rw [Exec.onScopes_run]
  cases declared : world.scopes.declare frame name value isConst with
  | error halt => exact .refl
  | ok scopes => exact .single (.declare declared)

private theorem assign (frame : FrameId) (name : String) (value : Value) :
    Proceeds allowed home (Exec.onScopes (·.assign frame name value) : ExecOf Code Unit) := by
  intro world sound inside
  rw [Exec.onScopes_run]
  cases assigned : world.scopes.assign frame name value with
  | error halt => exact .refl
  | ok scopes => exact .single (.assign assigned)

private theorem child (parent : FrameId) {next : FrameId → ExecOf Code α}
    (tail : ∀ frame, Proceeds allowed (some frame) (next frame)) :
    Proceeds allowed home (Exec.childFrame parent >>= next) := by
  intro world sound inside
  have entered : World.Step allowed world _ := .child world parent
  refine .head entered (tail world.scopes.frames.size _ (entered.sound sound).1 fun frame member => ?_)
  obtain rfl := Option.some.inj member
  simp [Scopes.child,Scopes.push]

private theorem share {work : ExecOf Code Unit} (name : String) (frame : FrameId) (context : ContextId)
    (binding : Proceeds allowed (some frame) work)
    (bound : ∀ world after : World Code, frame < world.scopes.frames.size →
      work world = (.ok (), after) → after.scopes.binds frame name) :
    Proceeds allowed (some frame) (do work; Machine.addExport name name frame context) := by
  intro world sound inside
  have begun := binding world sound inside
  rw [Exec.bind_run]
  rcases result : work world with ⟨halt | value, after⟩
  · rwa [result] at begun
  · rw [result] at begun
    exact begun.tail (.share after context name (bound world after (inside frame rfl) result))

end Proceeds

private theorem Scopes.binds_declare {before after : Scopes} {id : FrameId} {name : String} {value : Value}
    {isConst : Bool} (inside : id < before.frames.size)
    (declared : before.declare id name value isConst = .ok after) : after.binds id name := by
  obtain ⟨-, rfl⟩ := Scopes.declare_cases declared
  refine Scopes.binds_iff.mpr ⟨id, List.mem_cons_self, ?_⟩
  rw [Scopes.frame_modify_self _ _ inside]
  simp [Table.contains,Table.get?_insert]

private theorem Scopes.binds_assign {before after : Scopes} {id : FrameId} {name : String} {value : Value}
    (inside : id < before.frames.size) (assigned : before.assign id name value = .ok after) :
    after.binds id name := by
  obtain ⟨owner, rfl, cases⟩ := Scopes.assign_cases assigned
  have here : owner ∈ before.chain id ∧ owner < before.frames.size := by
    rcases cases with ⟨found, -⟩ | ⟨rfl, -⟩
    · exact ⟨List.mem_of_find?_eq_some found, inside_of_contains (binds_of_owner? found)⟩
    · exact ⟨List.mem_cons_self, inside⟩
  refine Scopes.binds_iff.mpr ⟨owner, ?_, ?_⟩
  · by_cases same : id = owner
    · exact same ▸ List.mem_cons_self
    · simpa only [chain,frame_modify_of_ne _ _ same] using here.1
  · rw [frame_modify_self _ _ here.2]
    simp [Table.contains,Table.get?_insert]

section Discipline

variable (setup : Setup) (allowed : String → Prop)

/-- The discipline of hosts whose commands remove no names: everything that machines do proceeds by
steps. -/
def Discipline.keepingNames
    (keeps : ∀ handler, allowed handler → ∀ given, (setup.host.handler handler given).KeepsNames allowed) :
    Discipline (id : List Line → List Line) setup where
  hosted := true
  Rel _ home _ _ one _ := Proceeds allowed home one
  Halts _ := True
  Alike heap heap' := heap = heap'
  Known run := Handled allowed run.commands
  At _ := True
  On _ := True
  Fine _ := True
  Body _ := True
  Does := Action.KeepsNames allowed
  Fit options := Handled allowed options.commands
  pure _ := fun _ _ _ => .refl
  throw _ := fun _ _ _ => .refl
  bind head tail := Proceeds.bind head fun value => tail value fun _ _ => trivial
  fault _ := trivial
  placed _ := trivial
  tooDeep := trivial
  endless := trivial
  tooLarge := trivial
  flat _ := trivial
  answers := @Heap.SameAnswers.of_eq
  closed _ _ _ _ _ _ _ := trivial
  heap tail := fun world => tail world.heap world.heap rfl world
  scopes tail := fun world => tail world.scopes (fun _ _ _ _ _ _ => trivial) world
  evaluate _ _ := .onHeap _
  hostText _ := .elsewhere fun world => by
    rw [Exec.hostText,Exec.askHeap_run]
    exact ⟨rfl, rfl⟩
  displayText _ := .elsewhere fun world => by
    rw [Exec.displayText,Exec.askHeap_run]
    exact ⟨rfl, rfl⟩
  method _ _ := .onHeap _
  member _ _ := .onHeap _
  call _ _ := .onHeap _
  context {context} _ _ _ _ _ _ tail := fun world sound =>
    tail (world.contextAt context) (sound.commands context) world sound
  dependencies _ _ _ := trivial
  facing _ _ _ := trivial
  within _ _ _ _ := trivial
  declare _ name _ _ isConst := .declare _ name _ isConst
  assign _ name _ _ := .assign _ name _
  child _ _ _ tail := .child _ fun frame => tail frame trivial
  pushResult _ := .modifyContext _ (fun _ => rfl) fun _ => rfl
  exportBound name source _ _ _ _ _ _ _ _ tail failed := by
    intro world sound inside
    rw [Machine.exportBound_run]
    split
    · rename_i bound
      exact .head (.share world _ name bound) (tail _ (sound.share _ name bound) inside)
    · exact failed world sound inside
  exportDeclared {_ frame} _ name {value} _ isConst := by
    refine .share name frame _ (.declare frame name value isConst) fun world after inside declared => ?_
    rw [Exec.onScopes_run] at declared
    split at declared
    · rename_i scopes found
      cases declared
      exact Scopes.binds_declare inside found
    · cases declared
  exportAssigned {_ frame} _ name {value} _ := by
    refine .share name frame _ (.assign frame name value) fun world after inside assigned => ?_
    rw [Exec.onScopes_run] at assigned
    split at assigned
    · rename_i scopes found
      cases assigned
      exact Scopes.binds_assign inside found
    · cases assigned
  define _ _ _ _ _ := .bind (.modifyContext _ (fun _ => rfl) fun _ => rfl) fun _ =>
    .elsewhere fun _ => ⟨rfl, rfl⟩
  log _ _ _ := .elsewhere fun _ => ⟨rfl, rfl⟩
  write _ := .elsewhere fun _ => ⟨rfl, rfl⟩
  surface _ := fun _ _ _ => .refl
  onSurface _ _ _ _ := .elsewhere fun world => by
    rw [Exec.onSurface_run]
    split <;> exact ⟨rfl, rfl⟩
  stopIfInvalid value line := .elsewhere fun world => by
    rw [Machine.stopIfInvalid_run]
    exact ⟨rfl, rfl⟩
  located line _ _ inner := fun world sound inside => by
    rw [Machine.located_run]
    exact inner world sound inside
  replaced _ _ _ _ := .onHeap _
  allocate _ _ _ := .onHeap _
  document _ _ := .onHeap _
  request _ _ := .elsewhere fun _ => ⟨rfl, rfl⟩
  unreachable _ := trivial
  timeout _ _ _ _ := trivial
  plain unhosted := nomatch unhosted
  handler known _ _ found given _ _ := keeps _ (known _ _ found) given
  gives _ := trivial
  fails _ := trivial
  examine does heap _ alike := alike ▸ ⟨rfl, does heap⟩
  make does := ⟨.onHeap _, fun value _ => does value⟩
  visible does table _ := does table
  hostAssign does frame _ := ⟨.assign frame _ _, does⟩
  hostErase does := does.elim
  nested does frame _ _ _ _ _ tail := by
    intro world sound inside
    obtain ⟨surface, surfaces, run⟩ := Machine.nestedOptions_run _ frame _ world
    rw [Exec.bind_run,run]
    have moved : World.Step allowed world { world with surfaces } :=
      .aside rfl (fun _ => rfl) fun _ => rfl
    exact .head moved (tail _ ((sound.commands _).merge does.1) _ (moved.sound sound).1 inside)
  resumes does record _ := does.2 record
  session _ options fit work _ inner := by
    intro world sound inside
    rw [Machine.session_run]
    have opened : World.Step allowed world (world.opened options) := .opened world fit
    have done := inner world.scopes.frames.size world.contexts.size trivial _ (opened.sound sound).1
      fun frame member => by rw [World.size_opened,← Option.some.inj member]; exact Nat.lt_succ_self _
    obtain ⟨log, events, left⟩ := Machine.conclude_world options.hooks world.scopes.frames.size
      world.contexts.size (work world.scopes.frames.size world.contexts.size (world.opened options)).1 _
    rw [left]
    exact .head opened (done.tail (.aside rfl (fun _ => rfl) fun _ => rfl))

private theorem Discipline.keepingNames_counts
    (keeps : ∀ handler, allowed handler → ∀ given, (setup.host.handler handler given).KeepsNames allowed) :
    (keepingNames setup allowed keeps).Counts := by
  refine ⟨trivial, ?_⟩
  intro context home α _ work work' inner world sound inside
  have begun : World.Step allowed world
      { world with contexts := world.contexts.modify context Machine.deeper } :=
    .aside rfl (fun id => World.view_modify (·.exports) world context id Machine.deeper fun _ => rfl)
      fun id => World.view_modify (·.commands) world context id Machine.deeper fun _ => rfl
  have done := inner _ (begun.sound sound).1 inside
  rw [Machine.counted_run]
  refine .head begun (done.tail (.aside rfl (fun id => ?_) fun id => ?_))
  · exact World.view_modify (·.exports) _ context id Machine.shallower fun _ => rfl
  · exact World.view_modify (·.commands) _ context id Machine.shallower fun _ => rfl

private theorem Discipline.keepingNames_tells
    (keeps : ∀ handler, allowed handler → ∀ given, (setup.host.handler handler given).KeepsNames allowed) :
    (keepingNames setup allowed keeps).Tells where
  start name line := Proceeds.elsewhere fun world => by
    obtain ⟨outcome, events, run⟩ := Machine.notifyStart_run name line _ world
    rw [run]
    exact ⟨rfl, rfl⟩
  finish name line value := Proceeds.elsewhere fun world => by
    obtain ⟨outcome, events, run⟩ := Machine.notifyFinish_run name line value _ world
    rw [run]
    exact ⟨rfl, rfl⟩

end Discipline

/-- Every name that a record exports has the value that is visible, in the world at the end of its
run, from the frame that exports it. -/
structure Record.ExportsVisible (record : Record) (context : ContextId) (world : World Code) : Prop where
  names : record.exports.keys = (world.contextAt context).exports.keys
  values (name : String) (frame : FrameId) (source : String) :
    (world.contextAt context).exports.get? name = some (frame, source) →
      ∃ value, world.scopes.resolve? frame source = some value ∧ record.exports.get? name = some value

private theorem World.Sound.exportsVisible {allowed : String → Prop} {world : World Code}
    (sound : world.Sound allowed) (root : FrameId) (context : ContextId) (failedLine : Option String) :
    (world.record root context failedLine).ExportsVisible context world where
  names := Table.keys_map _ _
  values name frame source found := by
    obtain ⟨value, held⟩ := Scopes.resolve?_of_binds (sound.exports context name frame source found)
    exact ⟨value, held, by simp only [World.record,Table.get?_map,found,Option.map_some,held,Option.getD_some]⟩

/-- A run that proceeds by steps and exports only what is visible. -/
structure World.RunLasts (allowed : String → Prop) (world : World)
    (ending : Except Halt Record × World) : Prop where
  steps : world.Reaches allowed ending.2
  exports (record : Record) : ending.1 = .ok record →
    record.ExportsVisible world.contexts.size ending.2

private theorem World.Sound.run {setup : Setup} {allowed : String → Prop}
    (keeps : ∀ handler, allowed handler → ∀ given, (setup.host.handler handler given).KeepsNames allowed)
    {world : World} (sound : world.Sound allowed) (depth : Nat) (source : String) {options : RunOptions}
    (handled : Handled allowed options.commands) :
    world.RunLasts allowed ((Machine.level setup depth).run source options world) := by
  have agree := (Discipline.keepingNames setup allowed keeps).agree_level
    (Discipline.keepingNames_counts setup allowed keeps) (Discipline.keepingNames_tells setup allowed keeps)
    (fun _ => trivial) id depth
  have steps : world.Reaches allowed ((Machine.level setup depth).run source options world).2 :=
    agree.run rfl source handled 0 none world sound nofun
  refine ⟨steps, fun record ended => ?_⟩
  obtain ⟨failedLine, rfl⟩ := Machine.run_record ended
  exact (steps.sound sound).1.exportsVisible _ _ failedLine

/-- Constants and exports last, in every run and through every event, as long as the commands of the
host remove no names. Every state on the way is sound: constants are bound where they are constant and
exports are visible. No frame loses a name, no constant changes its value, and what was visible from a
frame stays visible. -/
theorem constants_and_exports_last (setup : Setup) (allowed : String → Prop)
    (keeps : ∀ handler, allowed handler → ∀ given, (setup.host.handler handler given).KeepsNames allowed)
    (world : World) (sound : world.Sound allowed) :
    (∀ source options, Handled allowed options.commands →
      world.RunLasts allowed (execute setup source options world)) ∧
    (∀ depth source options, Handled allowed options.commands →
      world.RunLasts allowed ((Machine.level setup depth).run source options world)) ∧
    (∀ depth frame context statement, frame < world.scopes.frames.size →
      world.Reaches allowed ((Machine.level setup depth).statement setup frame context statement world).2) ∧
    (∀ surface selector event payload,
      world.Reaches allowed (dispatch setup surface selector event payload world).2) ∧
    ∀ after, world.Reaches allowed after →
      after.Sound allowed ∧ world.scopes.Lasting after.scopes ∧
        ∀ frame name, world.scopes.binds frame name → after.scopes.binds frame name := by
  have agree (depth : Nat) := (Discipline.keepingNames setup allowed keeps).agree_level
    (Discipline.keepingNames_counts setup allowed keeps) (Discipline.keepingNames_tells setup allowed keeps)
    (fun _ => trivial) id depth
  refine ⟨fun source options handled => sound.run keeps Machine.levels source handled,
    fun depth source options handled => sound.run keeps depth source handled,
    fun depth frame context statement inside => ?_, fun surface selector event payload => ?_,
    fun after reached => ?_⟩
  · have proceeds : Proceeds allowed (some frame)
        ((Machine.level setup depth).statement setup frame context statement) :=
      (Discipline.keepingNames setup allowed keeps).statement (agree depth)
        (Discipline.keepingNames_tells setup allowed keeps) trivial (fun _ _ => trivial) (fun _ _ => trivial)
        fun _ _ => (Discipline.keepingNames setup allowed keeps).runs_fully id _
    exact proceeds world sound fun other member => Option.some.inj member ▸ inside
  · have proceeds (listeners : List Listener) : (Discipline.keepingNames setup allowed keeps).Rel 0 none
        ((Machine.full setup).fire setup payload listeners)
        ((Machine.full setup).fire setup payload listeners) :=
      (Discipline.keepingNames setup allowed keeps).fire (agree Machine.levels)
        (fun same => same) trivial listeners
    exact proceeds _ world sound nofun
  · obtain ⟨later, lasting⟩ := reached.sound sound
    exact ⟨later, lasting, fun _ _ bound => lasting.binds bound⟩

private theorem Kit.seta_keepsNames (handler : String) (seta : handler = "seta") (given : CommandContext) :
    (Kit.host.handler handler given).KeepsNames (· = "seta") := by
  subst seta
  obtain ⟨args, dependencies, line, command⟩ := given
  rcases args with _ | ⟨key, _ | ⟨value, rest⟩⟩
  · trivial
  · cases key <;> trivial
  · cases key <;> simp [Kit.host,Kit.handler,Action.KeepsNames]

/-- A script that exports a constant and then sets a variable by a command of the host. -/
theorem constants_and_exports_last_seta :
    ({} : World).RunLasts (· = "seta")
      (execute { host := Kit.host } "export const a = 1\nseta('b', a)"
        { commands := .ofList [("seta", "seta")] } {}) :=
  (constants_and_exports_last { host := Kit.host } (· = "seta") Kit.seta_keepsNames {}
    World.sound_empty).1 _ _ (Handled.empty.insert rfl)

end Inyandiko
