import Mathlib.Data.Set.Card
import Inyandiko.Proofs.Exec
import Inyandiko.Proofs.Scope

/-! Flattening. The visible bindings of a frame make up one table, in which every visible name stands once and
has the value that the nearest frame gives it. A frame that holds this table and has none around it is no
different from the frame at hand: the same names have the same values, and so have all expressions. -/
namespace Inyandiko

namespace Scopes

variable (scopes : Scopes)

/-- The value of a name is that of the first frame of the chain that has one. -/
theorem resolve?_eq_findSome? (id : FrameId) (name : String) :
    scopes.resolve? id name = (scopes.chain id).findSome? fun id => (scopes.frame id).bindings.get? name := by
  rw [resolve?,owner?]
  induction scopes.chain id with
  | nil => rfl
  | cons id rest ih =>
    rw [List.find?_cons,List.findSome?_cons,Table.contains]
    cases found : (scopes.frame id).bindings.get? name with
    | none => exact ih
    | some value => exact found

private theorem get?_mergeAll (frames : List FrameId) (table : Table Value) (name : String) :
    (frames.foldl (fun table id => table.merge (scopes.frame id).bindings) table).get? name =
      (frames.reverse.findSome? fun id => (scopes.frame id).bindings.get? name).or (table.get? name) := by
  -- a frame that is merged later is nearer, and it is asked first
  induction frames generalizing table with
  | nil => rfl
  | cons id rest ih =>
    rw [List.foldl_cons,ih,Table.get?_merge,List.reverse_cons,List.findSome?_append,Option.or_assoc]
    simp

private theorem get?_snapshot (id : FrameId) (name : String) :
    (scopes.snapshot id).get? name = scopes.resolve? id name := by
  rw [snapshot,get?_mergeAll,List.reverse_reverse,resolve?_eq_findSome?]
  exact Option.or_none

private theorem contains_snapshot (id : FrameId) (name : String) :
    (scopes.snapshot id).contains name = scopes.binds id name := by
  rw [Table.contains,get?_snapshot]
  cases bound : scopes.binds id name with
  | true =>
    obtain ⟨value, found⟩ := resolve?_of_binds bound
    rw [found]
    rfl
  | false =>
    rw [binds,Option.isSome_eq_false_iff,Option.isNone_iff_eq_none] at bound
    rw [resolve?,bound]
    rfl

private theorem mem_keys_snapshot (id : FrameId) (name : String) :
    name ∈ (scopes.snapshot id).keys ↔ scopes.binds id name = true := by
  rw [← Table.contains_iff,contains_snapshot]

private theorem ncard_binds (id : FrameId) :
    Set.ncard {name | scopes.binds id name = true} = (scopes.snapshot id).size := by
  have same : {name | scopes.binds id name = true} = ((scopes.snapshot id).keys.toFinset : Set String) := by
    ext name
    rw [List.coe_toFinset]
    exact (scopes.mem_keys_snapshot id name).symm
  rw [same,Set.ncard_coe_finset,List.toFinset_card_of_nodup (scopes.snapshot id).nodup_keys]
  exact List.length_map _

section Root

variable (bindings : Table Value)

private theorem frame_push_root :
    (scopes.push bindings none).2.frame scopes.frames.size = { bindings, consts := [], outer := [] } := by
  simp [push,frame]

private theorem chain_push_root : (scopes.push bindings none).2.chain scopes.frames.size = [scopes.frames.size] := by
  rw [chain,frame_push_root]

private theorem resolve?_push_root (name : String) :
    (scopes.push bindings none).2.resolve? scopes.frames.size name = bindings.get? name := by
  rw [resolve?_eq_findSome?,chain_push_root,List.findSome?_singleton,frame_push_root]

private theorem snapshot_push_root : (scopes.push bindings none).2.snapshot scopes.frames.size = bindings := by
  rw [snapshot,chain_push_root]
  simp only [List.reverse_singleton,List.foldl_cons,List.foldl_nil,frame_push_root,Table.empty_merge]

end Root

end Scopes

variable {Code : Type}

private theorem Exec.evaluateIn_run {world inner : World Code} {frame root : FrameId}
    (visible : inner.scopes.resolve? root = world.scopes.resolve? frame) (heap : inner.heap = world.heap)
    (token : Token) :
    evaluateIn root token inner =
      ((evaluateIn frame token world).1, { inner with heap := (evaluateIn frame token world).2.heap }) := by
  simp only [evaluateIn,bind_run,scopes_run,onHeap_run,visible,heap]
  cases evaluate (world.scopes.resolve? frame) token world.heap with
  | error halt => rw [← heap]
  | ok pair => rfl

/-- The snapshot of a frame holds what is visible from there: the visible names, each once, with the values that
they have. A frame that holds the snapshot and has none around it has the same snapshot, and an expression has the
same value there, or fails in the same way, and leaves the same objects. So it does in the root of a run inside
another one, if no variable is given anew. -/
theorem flattening_preserves_evaluation (world : World Code) (frame : FrameId) :
    let visible := world.scopes.snapshot frame
    (∀ name, visible.contains name = world.scopes.binds frame name ∧
      visible.get? name = world.scopes.resolve? frame name ∧
      visible.keys.count name = if world.scopes.binds frame name then 1 else 0) ∧
    visible.size = Set.ncard {name | world.scopes.binds frame name = true} ∧
    (let flat := (world.scopes.push visible none).2
      let root := (world.scopes.push visible none).1
      flat.snapshot root = visible ∧
        ∀ token heap, evaluate (flat.resolve? root) token heap = evaluate (world.scopes.resolve? frame) token heap) ∧
    ∀ context (overrides : Overrides), ∃ options called,
      Machine.nestedOptions { overrides with vars := .empty } frame context world = (.ok options, called) ∧
      ∀ token, Exec.evaluateIn called.scopes.frames.size token (called.opened options) =
        ((Exec.evaluateIn frame token world).1,
          { called.opened options with heap := (Exec.evaluateIn frame token world).2.heap }) := by
  intro visible
  have same (scopes : Scopes) :
      (scopes.push visible none).2.resolve? scopes.frames.size = world.scopes.resolve? frame := by
    funext name
    rw [Scopes.resolve?_push_root,Scopes.get?_snapshot]
  refine ⟨fun name => ⟨world.scopes.contains_snapshot frame name, world.scopes.get?_snapshot frame name, ?_⟩,
    (world.scopes.ncard_binds frame).symm, ⟨world.scopes.snapshot_push_root visible, fun token heap => ?_⟩,
    fun context overrides => ?_⟩
  · rw [visible.nodup_keys.count]
    exact if_congr (world.scopes.mem_keys_snapshot frame name) rfl rfl
  · exact congrArg (fun lookup => evaluate lookup token heap) (same world.scopes)
  · obtain ⟨surface, surfaces, run⟩ := Machine.nestedOptions_run { overrides with vars := .empty } frame context world
    exact ⟨_, _, run, Exec.evaluateIn_run (same world.scopes) rfl⟩

end Inyandiko
