import Inyandiko.Proofs.Constants
import Inyandiko.Proofs.Flattening

/-! Assignment. Frames make up a tree, and a name belongs to the nearest frame on the way outward that binds it.
An assignment rewrites the name in this frame and nothing else in the tree, so the new value is seen from exactly
those frames whose way outward meets this frame before any other one that binds the name. -/
namespace Inyandiko

namespace Scopes

/-- The frame around a frame. -/
def parent? (scopes : Scopes) (id : FrameId) : Option FrameId := (scopes.frame id).outer.head?

/-- The first frame on the way outward from a frame that binds a name. -/
inductive Nearest (scopes : Scopes) (name : String) : FrameId → FrameId → Prop
  | here {id : FrameId} (bound : (scopes.frame id).bindings.contains name = true) : Nearest scopes name id id
  | around {id parent owner : FrameId} (free : (scopes.frame id).bindings.contains name = false)
    (link : scopes.parent? id = some parent) (further : Nearest scopes name parent owner) :
    Nearest scopes name id owner

/-- Frames that are linked by their parents, with constants that are bound. -/
structure Tree (scopes : Scopes) : Prop where
  linked : ∀ id, (scopes.frame id).outer = [] ∨
    ∃ parent < scopes.frames.size, (scopes.frame id).outer = scopes.chain parent
  consts : scopes.ConstsBound

variable {scopes after : Scopes} {id frame owner target : FrameId} {name : String} {value : Value}

private theorem Tree.outer_of_parent? (tree : scopes.Tree) {parent : FrameId} (link : scopes.parent? id = some parent) :
    (scopes.frame id).outer = scopes.chain parent := by
  rw [parent?] at link
  rcases tree.linked id with root | ⟨other, _, inner⟩
  · rw [root] at link
    cases link
  · rw [inner] at link ⊢
    cases link
    rfl

private theorem owner?_of_contains (bound : (scopes.frame id).bindings.contains name = true) :
    scopes.owner? id name = some id := by
  simp [owner?,chain,bound]

private theorem owner?_of_free (free : (scopes.frame id).bindings.contains name = false) :
    scopes.owner? id name =
      (scopes.frame id).outer.find? fun id => (scopes.frame id).bindings.contains name := by
  simp [owner?,chain,free]

private theorem Tree.nearest_iff (tree : scopes.Tree) :
    scopes.Nearest name id owner ↔ scopes.owner? id name = some owner := by
  constructor
  · intro nearest
    induction nearest with
    | here bound => exact owner?_of_contains bound
    | around free link _ ih =>
      rw [owner?_of_free free,tree.outer_of_parent? link]
      exact ih
  · intro found
    -- the frames around a frame get fewer on the way outward
    induction size : (scopes.frame id).outer.length using Nat.strongRecOn generalizing id with
    | ind length ih =>
      cases bound : (scopes.frame id).bindings.contains name with
      | true =>
        cases (owner?_of_contains bound).symm.trans found
        exact .here bound
      | false =>
        rw [owner?_of_free bound] at found
        rcases tree.linked id with root | ⟨parent, _, inner⟩
        · rw [root] at found
          cases found
        · have link : scopes.parent? id = some parent := by rw [parent?,inner]; rfl
          have fewer : (scopes.frame parent).outer.length < length := by
            rw [← size,inner,chain,List.length_cons]
            exact Nat.lt_succ_self _
          rw [inner] at found
          exact .around bound link (ih _ fewer found rfl)

section Kept

variable {change : Frame → Frame}

private theorem outer_modify (same : ∀ frame, (change frame).outer = frame.outer) (target id : FrameId) :
    ((scopes.modify target change).frame id).outer = (scopes.frame id).outer := by
  by_cases here : id = target
  · subst here
    by_cases inside : id < scopes.frames.size
    · rw [frame_modify_self scopes change inside,same]
    · rw [modify_of_le scopes change (Nat.not_lt.mp inside)]
  · rw [frame_modify_of_ne scopes change here]

private theorem chain_modify (same : ∀ frame, (change frame).outer = frame.outer) (target id : FrameId) :
    (scopes.modify target change).chain id = scopes.chain id := by
  rw [chain,chain,outer_modify same]

private theorem Tree.modify (tree : scopes.Tree) (same : ∀ frame, (change frame).outer = frame.outer)
    (consts : (scopes.modify target change).ConstsBound) : (scopes.modify target change).Tree where
  linked id := by
    rw [outer_modify same,size_modify]
    simp only [chain_modify same]
    exact tree.linked id
  consts := consts

private theorem Tree.assign (tree : scopes.Tree) (assigned : scopes.assign id name value = .ok after) : after.Tree := by
  have consts := (lasting_assign tree.consts assigned).2
  obtain ⟨owner, rfl, -⟩ := assign_cases assigned
  exact tree.modify (fun _ => rfl) consts

private theorem Tree.empty : Tree {} where
  linked id := .inl (by rw [frame_of_le _ (Nat.zero_le id)])
  consts id name member := by
    rw [frame_of_le _ (Nat.zero_le id)] at member
    cases member

private theorem Tree.push (tree : scopes.Tree) (bindings : Table Value) {parent : Option FrameId}
    (known : ∀ id ∈ parent, id < scopes.frames.size) : (scopes.push bindings parent).2.Tree where
  linked id := by
    have old {id : FrameId} (inside : id < scopes.frames.size) :
        (scopes.push bindings parent).2.chain id = scopes.chain id := by
      rw [chain,chain,frame_push_of_lt scopes bindings parent inside]
    have grown := size_push scopes bindings parent
    rcases Nat.lt_trichotomy id scopes.frames.size with inside | rfl | outside
    · rw [frame_push_of_lt scopes bindings parent inside]
      rcases tree.linked id with root | ⟨other, within, inner⟩
      · exact .inl root
      · exact .inr ⟨other, Nat.lt_of_lt_of_eq (Nat.lt_succ_of_lt within) grown.symm, by rw [inner,old within]⟩
    · cases parent with
      | none => exact .inl (by simp [Scopes.push,frame])
      | some other =>
        have within : other < scopes.frames.size := known other rfl
        exact .inr ⟨other, Nat.lt_of_lt_of_eq (Nat.lt_succ_of_lt within) grown.symm,
          by rw [old within]; simp [Scopes.push,frame]⟩
    · exact .inl (by rw [frame_of_le _ (by omega)])
  consts := tree.consts.push bindings parent

end Kept

/-- What an assignment in a frame does that rewrites a name in its target: the nearest frame that binds the name,
or the frame at hand if there is none. -/
structure Rewrites (before : Scopes) (frame : FrameId) (name : String) (value : Value) (target : FrameId)
    (after : Scopes) : Prop where
  chosen : before.Nearest name frame target ∨ target = frame ∧ ∀ owner, ¬before.Nearest name frame owner
  tree : after.Tree
  size : after.frames.size = before.frames.size
  others : ∀ id ≠ target, after.frame id = before.frame id
  outer : (after.frame target).outer = (before.frame target).outer
  consts : (after.frame target).consts = (before.frame target).consts
  unfixed : name ∉ (after.frame target).consts
  bindings : ∀ key, (after.frame target).bindings.get? key =
    if key = name then some value else (before.frame target).bindings.get? key
  seen : ∀ id, after.Nearest name id target → after.resolve? id name = some value
  unseen : ∀ id key, (key = name → ¬after.Nearest name id target) → after.resolve? id key = before.resolve? id key

section Assigned

variable {key : String}

/-- The scopes with a name rewritten in a frame. -/
def rewrite (scopes : Scopes) (target : FrameId) (name : String) (value : Value) : Scopes :=
  scopes.modify target fun frame => { frame with bindings := frame.bindings.insert name value }

private theorem get?_rewrite (inside : target < scopes.frames.size) (id : FrameId) (key : String) :
    ((scopes.rewrite target name value).frame id).bindings.get? key =
      if id = target ∧ key = name then some value else (scopes.frame id).bindings.get? key := by
  by_cases here : id = target
  · subst here
    rw [rewrite,frame_modify_self scopes _ inside,Table.get?_insert]
    simp
  · rw [rewrite,frame_modify_of_ne scopes _ here,if_neg fun both => here both.1]

private theorem findSome?_rewrite (inside : target < scopes.frames.size) {frames : List FrameId}
    (elsewhere : frames.find? (fun id =>
      ((scopes.rewrite target name value).frame id).bindings.contains name) ≠ some target) :
    frames.findSome? (fun id => ((scopes.rewrite target name value).frame id).bindings.get? name) =
      frames.findSome? fun id => (scopes.frame id).bindings.get? name := by
  induction frames with
  | nil => rfl
  | cons id frames ih =>
    have held := @get?_rewrite scopes target name value inside id name
    by_cases here : id = target
    · rw [if_pos ⟨here, rfl⟩] at held
      refine absurd ?_ elsewhere
      rw [List.find?_cons_of_pos (by simp [Table.contains,held]),here]
    · rw [if_neg fun both => here both.1] at held
      rw [List.findSome?_cons,List.findSome?_cons,held]
      cases found : (scopes.frame id).bindings.get? name with
      | some value => rfl
      | none =>
        refine ih fun same => elsewhere ?_
        rw [List.find?_cons_of_neg (by simp [Table.contains,held,found])]
        exact same

private theorem resolve?_rewrite (inside : target < scopes.frames.size) (id : FrameId) (key : String)
    (elsewhere : key = name → (scopes.rewrite target name value).owner? id name ≠ some target) :
    (scopes.rewrite target name value).resolve? id key = scopes.resolve? id key := by
  have chain : (scopes.rewrite target name value).chain id = scopes.chain id := by
    rw [rewrite,chain_modify]
    exact fun _ => rfl
  rw [resolve?_eq_findSome?,resolve?_eq_findSome?,chain]
  by_cases same : key = name
  · subst same
    rw [owner?,chain] at elsewhere
    exact findSome?_rewrite inside (elsewhere rfl)
  · congr 1
    funext id
    rw [get?_rewrite inside,if_neg fun both => same both.2]

private theorem frame_rewrite_self (inside : target < scopes.frames.size) :
    (scopes.rewrite target name value).frame target =
      { scopes.frame target with bindings := (scopes.frame target).bindings.insert name value } :=
  frame_modify_self scopes _ inside

private theorem assign_eq_rewrite (inside : frame < scopes.frames.size)
    (assigned : scopes.assign frame name value = .ok after) :
    ∃ target < scopes.frames.size, after = scopes.rewrite target name value ∧
      ((scopes.owner? frame name = some target ∧ name ∉ (scopes.frame target).consts) ∨
        (target = frame ∧ scopes.owner? frame name = none)) := by
  obtain ⟨target, changed, cases⟩ := assign_cases assigned
  refine ⟨target, ?_, changed, cases⟩
  rcases cases with ⟨found, _⟩ | ⟨rfl, _⟩
  · exact inside_of_contains (binds_of_owner? found)
  · exact inside

private theorem rewrites_of_assign (tree : scopes.Tree) (inside : frame < scopes.frames.size)
    (assigned : scopes.assign frame name value = .ok after) :
    ∃ target, scopes.Rewrites frame name value target after := by
  have grown := tree.assign assigned
  obtain ⟨target, within, rfl, cases⟩ := assign_eq_rewrite inside assigned
  have changed := @frame_rewrite_self scopes target name value within
  have held := @get?_rewrite scopes target name value within target
  refine ⟨target, ?_, grown, size_modify _ _ _, fun id other => frame_modify_of_ne _ _ other, by rw [changed],
    by rw [changed], ?_, fun key => ?_, fun id nearest => ?_, fun id key elsewhere => ?_⟩
  · simp only [tree.nearest_iff]
    rcases cases with ⟨found, _⟩ | ⟨same, unbound⟩
    · exact .inl found
    · exact .inr ⟨same, by simp [unbound]⟩
  · rw [changed]
    rcases cases with ⟨_, unfixed⟩ | ⟨rfl, unbound⟩
    · exact unfixed
    · intro member
      have bound := owner?_of_contains (tree.consts target name member)
      rw [unbound] at bound
      cases bound
  · rw [held]
    simp only [true_and]
  · rw [resolve?,grown.nearest_iff.mp nearest,Option.bind_some,held,if_pos ⟨rfl, rfl⟩]
  · exact resolve?_rewrite within id key fun same nearest => elsewhere same (grown.nearest_iff.mpr nearest)

private theorem assign_of_const (found : scopes.owner? frame name = some owner)
    (const : name ∈ (scopes.frame owner).consts) :
    scopes.assign frame name value = .error (.ofCause (.reassigned name)) := by
  simp [assign,binds,found,const]

private theorem exists_assign
    (unfixed : ∀ owner, scopes.owner? frame name = some owner → name ∉ (scopes.frame owner).consts) :
    ∃ after, scopes.assign frame name value = .ok after := by
  refine ⟨_, if_neg fun fixed => ?_⟩
  rw [Bool.and_eq_true,List.contains_iff_mem,binds,Option.isSome_iff_exists] at fixed
  obtain ⟨⟨owner, found⟩, const⟩ := fixed
  rw [found] at const
  exact unfixed owner found const

end Assigned

end Scopes

variable {Code : Type}

/-- An assignment fails exactly when the nearest frame that binds the name holds it as a constant, and then nothing
changes. Otherwise one binding changes. The new value is seen from the frames for which the rewritten frame is now
the nearest one, and from all other frames, and under all other names, everything is as it was. -/
theorem assignment_rewrites_one_binding {world : World Code} (tree : world.scopes.Tree) {frame : FrameId}
    (inside : frame < world.scopes.frames.size) (name : String) (value : Value) :
    let assigned := Exec.onScopes (·.assign frame name value) world
    let fixed := ∃ owner, world.scopes.Nearest name frame owner ∧ name ∈ (world.scopes.frame owner).consts
    (fixed ∧ (Cause.reassigned name).category = .binding ∧
        assigned = (.error (.ofCause (.reassigned name)), world)) ∨
      (¬fixed ∧ ∃ target scopes, assigned = (.ok (), { world with scopes }) ∧
        world.scopes.Rewrites frame name value target scopes) := by
  intro assigned fixed
  by_cases const : fixed
  · refine .inl ⟨const, rfl, ?_⟩
    obtain ⟨owner, nearest, const⟩ := const
    have refused : world.scopes.assign frame name value = _ :=
      Scopes.assign_of_const (tree.nearest_iff.mp nearest) const
    simp only [assigned,Exec.onScopes_run,refused]
  · obtain ⟨scopes, done⟩ : ∃ scopes, world.scopes.assign frame name value = .ok scopes :=
      Scopes.exists_assign fun owner found member => const ⟨owner, tree.nearest_iff.mpr found, member⟩
    obtain ⟨target, rewrites⟩ := Scopes.rewrites_of_assign tree inside done
    refine .inr ⟨const, target, scopes, ?_, rewrites⟩
    simp only [assigned,Exec.onScopes_run,done]

namespace Scopes

/-- A root with a variable, two frames inside it, the second with a variable of the same name, and a frame inside
the first one. -/
def family : Scopes :=
  let root := (({} : Scopes).push (Table.empty.insert "total" (.int 0)) none).2
  let two := ((root.child 0).2.push (Table.empty.insert "total" (.int 7)) (some 0)).2
  (two.child 1).2

private theorem tree_family : family.Tree := by
  have known {scopes : Scopes} {id : FrameId} (inside : id < scopes.frames.size) :
      ∀ other ∈ some id, other < scopes.frames.size := by
    rintro other ⟨⟩
    exact inside
  refine (((Tree.empty.push _ ?_).push _ (known ?_)).push _ (known ?_)).push _ (known ?_)
  · rintro other ⟨⟩
  all_goals decide

end Scopes

/-- An assignment two frames below the root is seen by the frames between, and not by the one that has a variable
of its own. -/
theorem assignment_rewrites_one_binding_shadowed :
    Scopes.family.Tree ∧ 3 < Scopes.family.frames.size ∧
      ∃ scopes : Scopes, Exec.onScopes (·.assign 3 "total" (.int 5)) ({ scopes := Scopes.family } : World) =
          (.ok (), { scopes }) ∧
        scopes.resolve? 1 "total" = some (.int 5) ∧ scopes.resolve? 2 "total" = some (.int 7) := by
  have inside : 3 < Scopes.family.frames.size := by decide
  refine ⟨Scopes.tree_family, inside, ?_⟩
  have assigned := @assignment_rewrites_one_binding (List Source.Line) { scopes := Scopes.family } Scopes.tree_family
    3 inside "total" (.int 5)
  have owned : Scopes.family.owner? 3 "total" = some 0 := by decide
  rcases assigned with ⟨⟨owner, nearest, const⟩, _⟩ | ⟨_, target, scopes, run, rewrites⟩
  · rw [Scopes.tree_family.nearest_iff,owned] at nearest
    cases nearest
    exact absurd const (by decide)
  · have root : target = 0 := by
      rcases rewrites.chosen with nearest | ⟨_, none⟩
      · rw [Scopes.tree_family.nearest_iff,owned] at nearest
        exact (Option.some.inj nearest).symm
      · exact absurd (Scopes.tree_family.nearest_iff.mpr owned) (none 0)
    subst root
    have first : scopes.frame 1 = Scopes.family.frame 1 := rewrites.others 1 (by decide)
    have second : scopes.frame 2 = Scopes.family.frame 2 := rewrites.others 2 (by decide)
    have bound : (scopes.frame 0).bindings.contains "total" = true := by
      rw [Table.contains,rewrites.bindings]
      rfl
    refine ⟨scopes, run, rewrites.seen 1 (.around ?_ ?_ (.here bound)), (rewrites.unseen 2 "total" fun _ nearest => ?_).trans ?_⟩
    · rw [first]
      decide
    · rw [Scopes.parent?,first]
      decide
    · cases nearest with
      | around free =>
        rw [second] at free
        exact absurd free (by decide)
    · decide

end Inyandiko
