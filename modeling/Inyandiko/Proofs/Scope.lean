import Inyandiko.Proofs.Table
import Inyandiko.Scope

/-! Frames after a change. A change of one frame leaves the others alone, a new frame leaves all of
them alone, and an assignment changes a frame that binds the name already or the frame at hand. -/
namespace Inyandiko.Scopes

theorem size_modify (scopes : Scopes) (id : FrameId) (change : Frame → Frame) :
    (scopes.modify id change).frames.size = scopes.frames.size := by
  simp [modify]

theorem frame_modify_of_ne (scopes : Scopes) {id other : FrameId} (change : Frame → Frame)
    (different : other ≠ id) : (scopes.modify id change).frame other = scopes.frame other := by
  simp only [frame,modify,Array.getElem?_setIfInBounds,if_neg (Ne.symm different)]

theorem frame_modify_self (scopes : Scopes) {id : FrameId} (change : Frame → Frame)
    (inside : id < scopes.frames.size) :
    (scopes.modify id change).frame id = change (scopes.frame id) := by
  simp [frame,modify,inside]

theorem size_push (scopes : Scopes) (bindings : Table Value) (parent : Option FrameId) :
    (scopes.push bindings parent).2.frames.size = scopes.frames.size + 1 := by
  simp [push]

theorem frame_push_of_lt (scopes : Scopes) (bindings : Table Value) (parent : Option FrameId)
    {id : FrameId} (inside : id < scopes.frames.size) :
    (scopes.push bindings parent).2.frame id = scopes.frame id := by
  simp [push,frame,Array.getElem?_push,Nat.ne_of_lt inside]

theorem frame_of_le (scopes : Scopes) {id : FrameId} (outside : scopes.frames.size ≤ id) :
    scopes.frame id = {} := by
  simp [frame,outside]

theorem inside_of_contains {scopes : Scopes} {id : FrameId} {name : String}
    (bound : (scopes.frame id).bindings.contains name) : id < scopes.frames.size := by
  rcases Nat.lt_or_ge id scopes.frames.size with inside | outside
  · exact inside
  · simp [frame_of_le scopes outside,Table.contains,Table.get?,Table.empty] at bound

theorem frame_push_self (scopes : Scopes) (bindings : Table Value) (parent : Option FrameId) :
    ((scopes.push bindings parent).2.frame scopes.frames.size).consts = [] := by
  simp [push,frame]

theorem modify_of_le (scopes : Scopes) {id : FrameId} (change : Frame → Frame)
    (outside : scopes.frames.size ≤ id) : scopes.modify id change = scopes := by
  simp [modify,Array.setIfInBounds,Nat.not_lt.mpr outside]

/-- A name is visible from a frame when the frame or one around it binds the name. -/
theorem binds_iff {scopes : Scopes} {id : FrameId} {name : String} :
    scopes.binds id name ↔ ∃ owner ∈ scopes.chain id, (scopes.frame owner).bindings.contains name := by
  simp [binds,owner?,List.find?_isSome]

theorem binds_of_owner? {scopes : Scopes} {id owner : FrameId} {name : String}
    (found : scopes.owner? id name = some owner) :
    (scopes.frame owner).bindings.contains name = true := by
  simpa using List.find?_some found

/-- A visible name has a value. -/
theorem resolve?_of_binds {scopes : Scopes} {id : FrameId} {name : String} (bound : scopes.binds id name) :
    ∃ value, scopes.resolve? id name = some value := by
  obtain ⟨owner, found⟩ := Option.isSome_iff_exists.mp bound
  obtain ⟨value, held⟩ := Option.isSome_iff_exists.mp (binds_of_owner? found)
  exact ⟨value, by simp only [resolve?,found,Option.bind_some,held]⟩

/-- An assignment that succeeds changes one frame: the owner of the name, where it is no constant,
or the frame at hand, when the name is not visible from there. -/
theorem assign_cases {scopes after : Scopes} {id : FrameId} {name : String} {value : Value}
    (assigned : scopes.assign id name value = .ok after) :
    ∃ owner, after = scopes.modify owner (fun frame =>
        { frame with bindings := frame.bindings.insert name value }) ∧
      ((scopes.owner? id name = some owner ∧ name ∉ (scopes.frame owner).consts) ∨
        (owner = id ∧ scopes.owner? id name = none)) := by
  unfold assign at assigned
  dsimp only at assigned
  split at assigned
  · cases assigned
  · rename_i changeable
    refine ⟨_, (Except.ok.inj assigned).symm, ?_⟩
    cases found : scopes.owner? id name with
    | none => exact .inr ⟨rfl, rfl⟩
    | some owner =>
      simp only [found,Option.getD_some,binds,Option.isSome_some,Bool.true_and,
        List.contains_iff_mem] at changeable ⊢
      exact .inl ⟨trivial, changeable⟩

theorem assign_eq_ok {scopes after : Scopes} {id : FrameId} {name : String} {value : Value}
    (assigned : scopes.assign id name value = .ok after) :
    ∃ owner, after = scopes.modify owner (fun frame =>
        { frame with bindings := frame.bindings.insert name value }) ∧
      (owner ≠ id → (scopes.frame owner).bindings.contains name = true ∧
        name ∉ (scopes.frame owner).consts) := by
  obtain ⟨owner, changed, ⟨found, changeable⟩ | ⟨own, _⟩⟩ := assign_cases assigned
  · exact ⟨owner, changed, fun _ => ⟨binds_of_owner? found, changeable⟩⟩
  · exact ⟨owner, changed, fun outer => absurd own outer⟩

/-- A declaration that succeeds binds a name that the frame at hand does not have yet. -/
theorem declare_cases {scopes after : Scopes} {id : FrameId} {name : String} {value : Value}
    {isConst : Bool} (declared : scopes.declare id name value isConst = .ok after) :
    (scopes.frame id).bindings.contains name = false ∧ after = scopes.modify id fun frame =>
      { frame with
        bindings := frame.bindings.insert name value
        consts := if isConst then name :: frame.consts else frame.consts } := by
  unfold declare at declared
  split at declared
  · cases declared
  · rename_i free
    exact ⟨Bool.eq_false_iff.mpr free, (Except.ok.inj declared).symm⟩

theorem declare_eq_ok {scopes after : Scopes} {id : FrameId} {name : String} {value : Value}
    {isConst : Bool} (declared : scopes.declare id name value isConst = .ok after) :
    ∃ change, after = scopes.modify id change := ⟨_, (declare_cases declared).2⟩

/-- Every value of a snapshot stands in a frame that is visible. -/
theorem mem_snapshot {scopes : Scopes} {id : FrameId} {P : Value → Prop}
    (each : ∀ frame ∈ scopes.chain id, ∀ value ∈ (scopes.frame frame).bindings.values, P value) :
    ∀ value ∈ (scopes.snapshot id).values, P value := by
  have merged (frames : List FrameId) (table : Table Value)
      (all : ∀ frame ∈ frames, ∀ value ∈ (scopes.frame frame).bindings.values, P value)
      (held : ∀ value ∈ table.values, P value) :
      ∀ value ∈ (frames.foldl (fun table id => table.merge (scopes.frame id).bindings) table).values, P value := by
    induction frames generalizing table with
    | nil => exact held
    | cons frame frames ih =>
      refine ih _ (fun other member => all other (List.mem_cons_of_mem _ member)) fun value member => ?_
      exact (Table.mem_values_merge member).elim (held value) (all frame List.mem_cons_self value)
  exact merged _ _ (fun frame member => each frame (List.mem_reverse.1 member)) nofun

end Inyandiko.Scopes
