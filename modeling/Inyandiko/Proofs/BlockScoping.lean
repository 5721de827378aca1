import Inyandiko.Proofs.Changes
import Inyandiko.Proofs.Scope

/-! Block scoping. A computation declares names at most in its home and in frames that it makes
itself, and assigns only to variables that exist or in its home. Conditionals, loops, commands and
calls have no home of their own, so they leave the names of every frame as they are. -/
namespace Inyandiko

variable {Code Code' : Type} {recode : Code → Code'} {context : ContextId} {home : Option FrameId}

/-- A frame with the same place, names and constants; only variables may have new values. -/
structure Frame.Kept (before after : Frame) : Prop where
  outer : after.outer = before.outer
  names : after.bindings.keys = before.bindings.keys
  consts : after.consts = before.consts
  values : ∀ name ∈ before.consts, after.bindings.get? name = before.bindings.get? name

private theorem Frame.Kept.refl (frame : Frame) : frame.Kept frame := ⟨rfl, rfl, rfl, fun _ _ => rfl⟩

private theorem Frame.Kept.trans {first second third : Frame} (one : first.Kept second)
    (two : second.Kept third) : first.Kept third where
  outer := two.outer.trans one.outer
  names := two.names.trans one.names
  consts := two.consts.trans one.consts
  values name member := by
    rw [two.values name (one.consts ▸ member)]
    exact one.values name member

namespace Scopes

/-- Every frame there was, the home apart, is kept. -/
structure Kept (home : Option FrameId) (before after : Scopes) : Prop where
  size : before.frames.size ≤ after.frames.size
  frames : ∀ id < before.frames.size, home ≠ some id → (before.frame id).Kept (after.frame id)

private theorem Kept.refl (home : Option FrameId) (scopes : Scopes) : scopes.Kept home scopes :=
  ⟨Nat.le_refl _, fun _ _ _ => .refl _⟩

private theorem Kept.trans {first second third : Scopes} (one : Kept home first second)
    (two : Kept home second third) : Kept home first third where
  size := Nat.le_trans one.size two.size
  frames id inside outside :=
    (one.frames id inside outside).trans (two.frames id (Nat.lt_of_lt_of_le inside one.size) outside)

private theorem Kept.of_child {scopes after : Scopes} {parent : FrameId}
    (inner : Kept (some (scopes.child parent).1) (scopes.child parent).2 after) :
    Kept home scopes after := by
  have grown : (scopes.child parent).2.frames.size = scopes.frames.size + 1 := size_push _ _ _
  refine ⟨by have := inner.size; omega, fun id inside _ => ?_⟩
  have same : (scopes.child parent).2.frame id = scopes.frame id := frame_push_of_lt _ _ _ inside
  rw [← same]
  refine inner.frames id (by omega) fun equal => ?_
  exact Nat.ne_of_gt inside (Option.some.inj equal)

private theorem kept_modify_home (scopes : Scopes) (id : FrameId) (change : Frame → Frame) :
    Kept (some id) scopes (scopes.modify id change) where
  size := Nat.le_of_eq (size_modify scopes id change).symm
  frames other _ outside := by
    have different : other ≠ id := fun equal => outside (equal ▸ rfl)
    rw [frame_modify_of_ne scopes change different]
    exact .refl _

private theorem kept_declare {scopes after : Scopes} {id : FrameId} {name : String} {value : Value}
    {isConst : Bool} (declared : scopes.declare id name value isConst = .ok after) :
    Kept (some id) scopes after := by
  obtain ⟨change, rfl⟩ := declare_eq_ok declared
  exact kept_modify_home scopes id change

private theorem kept_assign {scopes after : Scopes} {id : FrameId} {name : String} {value : Value}
    (assigned : scopes.assign id name value = .ok after) : Kept (some id) scopes after := by
  obtain ⟨owner, rfl, changeable⟩ := assign_eq_ok assigned
  refine ⟨Nat.le_of_eq (size_modify _ _ _).symm, fun other inside outside => ?_⟩
  by_cases own : other = owner
  · subst own
    obtain ⟨bound, unfixed⟩ := changeable fun equal => outside (equal ▸ rfl)
    rw [frame_modify_self scopes _ inside]
    refine ⟨rfl, Table.keys_insert_of_contains _ name value bound, rfl, fun const member => ?_⟩
    have other : const ≠ name := fun equal => unfixed (equal ▸ member)
    simp only [Table.get?_insert,if_neg other]
  · rw [frame_modify_of_ne scopes _ own]
    exact .refl _

end Scopes

namespace Changes

private theorem kept {before after : World Code} (changes : Changes false context home before after) :
    before.scopes.Kept home after.scopes := by
  generalize unhosted : false = hosted at changes
  induction changes with
  | refl | heap | result | exported | defined | logged | written | requested | recorded | surface =>
    exact .refl _ _
  | trans head tail first second => exact first.trans second
  | declare declared => exact Scopes.kept_declare declared
  | assign assigned => exact Scopes.kept_assign assigned
  | child parent inner ih => exact .of_child ih
  | call inner ih => exact ih
  | hostAssign allowed | hostErase allowed | newSurface allowed | run allowed =>
    exact absurd allowed (by simp [← unhosted])

end Changes

/-- A computation that leaves every frame its place, its names and its constants, however it ends,
and so adds nothing to the variables of any run. -/
structure KeepsFrames {α : Type} (work : Exec α) (world : World) : Prop where
  frames : world.scopes.Kept none (work world).2.scopes
  names : ∀ root < world.scopes.frames.size, ∀ context failedLine,
    ((work world).2.record root context failedLine).vars.keys =
      (world.record root context failedLine).vars.keys

private theorem InStep.keepsFrames {α : Type} {work work' : Exec α}
    (steps : InStep id false context none work work') (world : World)
    (plain : (world.contextAt context).commands = .empty) : KeepsFrames work world := by
  have frames := (steps.changes world fun _ => plain).kept
  refine ⟨frames, fun root inside _ _ => ?_⟩
  exact (frames.frames root inside nofun).names

/-- Loops, conditionals, calls as statements, calls in expressions and calls of functions by name
keep the frames, in every state of a run without commands of the host. -/
theorem blocks_keep_frames (setup : Setup) (depth : Nat) (world : World) (frame : FrameId)
    (context : ContextId) (plain : (world.contextAt context).commands = .empty) :
    let machine := Machine.level setup depth
    (∀ header body, KeepsFrames (machine.statement setup frame context (.loop header body)) world) ∧
      (∀ condition body otherwise,
        KeepsFrames (machine.statement setup frame context (.branch condition body otherwise)) world) ∧
      (∀ line, KeepsFrames (machine.statement setup frame context (.command line)) world) ∧
      (∀ token, KeepsFrames (machine.token token frame context) world) ∧
      ∀ name args, KeepsFrames (machine.callFunction setup name (pure args) context) world := by
  have agree := Machine.agree_level setup false depth
  refine ⟨fun header body => ?_, fun condition body otherwise => ?_, fun line => ?_, fun token => ?_,
    fun name args => ?_⟩
  · exact (InStep.loopStatement agree setup header body frame).keepsFrames world plain
  · exact (InStep.branchStatement agree setup condition body otherwise frame).keepsFrames world plain
  · exact (InStep.commandLine agree setup line frame).keepsFrames world plain
  · exact (agree.token token frame context none).keepsFrames world plain
  · exact (InStep.callFunction agree setup name (.pure args)).keepsFrames world plain

/-- In a fresh run, a loop whose body declares a name leaves the root without it. -/
theorem blocks_keep_frames_fresh :
    ((({} : World).opened {}).contextAt 0).commands = .empty ∧
      KeepsFrames ((Machine.level {} 2).statement {} 0 0
        (.loop (.count "2".toList) ["let x = 1".toList])) (({} : World).opened {}) :=
  ⟨rfl, (blocks_keep_frames {} 2 (({} : World).opened {}) 0 0 rfl).1 _ _⟩

end Inyandiko
