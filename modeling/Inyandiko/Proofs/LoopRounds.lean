import Inyandiko.Proofs.Termination.Range

/-! Loops over integers. How often such a loop runs its body, and with which values, is settled before its
first round; only a return or a halt of the body ends it earlier. -/
namespace Inyandiko

open Source

variable {Code : Type}

namespace Binary64

private theorem log2_lt {magnitude bits : Nat} (positive : magnitude ≠ 0) (small : magnitude < Nat.pow 2 bits) :
    magnitude.log2 < bits := (Nat.log2_lt positive).mpr small

/-- Integers of fewer bits than the greatest finite number has are finite after rounding. -/
private theorem ofInt_isFinite {value : Int} (small : value.natAbs < Nat.pow 2 1023) :
    ∃ negative significand exponent, ofInt value = .finite negative significand exponent := by
  rw [ofInt,round]
  split
  · exact ⟨_, _, _, rfl⟩
  · rename_i positive
    have bits := log2_lt positive small
    have exponent : quotientExponent value.natAbs 1 ≤ 970 := by
      have one : Nat.log2 1 = 0 := by decide
      simp only [quotientExponent,one]
      split <;> simp only [leastExponent] <;> omega
    dsimp only
    split
    · rw [if_neg (by simp only [greatestExponent]; omega)]
      exact ⟨_, _, _, rfl⟩
    · rw [if_neg (by simp only [greatestExponent]; omega)]
      exact ⟨_, _, _, rfl⟩

end Binary64

private theorem Number.isFinite_int {value : Int} (small : value.natAbs < Nat.pow 2 1023) :
    (Number.int value).isFinite = .ok true := by
  obtain ⟨negative, significand, exponent, eq⟩ := Binary64.ofInt_isFinite small
  simp only [isFinite,toFloat,eq]
  rfl

namespace Loop

private theorem count?_int {count : Int} (positive : 0 ≤ count) (small : count.natAbs < Nat.pow 2 1023) :
    count? (.number (.int count)) = .ok (some count.toNat) := by
  simp only [count?,Number.isFinite_int small,Number.normalize]
  rw [if_neg (by omega)]
  rfl

private theorem bounds?_int {first last : Int} (small : first.natAbs < Nat.pow 2 1023)
    (small' : last.natAbs < Nat.pow 2 1023) :
    bounds? (.number (.int first)) (.number (.int last)) = .ok (some (.int first, .int last)) := by
  simp only [bounds?,bound?,Number.isFinite_int small,Number.isFinite_int small']
  rfl

/-- The world that a number of rounds leave, each of them in the world of the one before. -/
def worldAt (round : Nat → ExecOf Code (Option Value)) (world : World Code) : Nat → World Code
  | 0 => world
  | count + 1 => (round count (worldAt round world count)).2

/-- The course of a loop of a given number of rounds: a number of them are done and neither return nor halt.
Rounds are left out only if the next one returns or halts, and then the loop ends as that round does. -/
structure Course (round : Nat → ExecOf Code (Option Value)) (total : Nat) (world : World Code) (done : Nat)
    (ending : Except Halt (Option Value) × World Code) : Prop where
  passed : ∀ count < done, (round count (worldAt round world count)).1 = .ok none
  ended : (done = total ∧ ending = (.ok none, worldAt round world done)) ∨
    (done < total ∧ ending = round done (worldAt round world done) ∧ ending.1 ≠ .ok none)

private theorem worldAt_succ (round : Nat → ExecOf Code (Option Value)) (world : World Code) (count : Nat) :
    worldAt round world (count + 1) = worldAt (fun count => round (count + 1)) (round 0 world).2 count := by
  induction count with
  | zero => rfl
  | succ count ih =>
    rw [worldAt,ih]
    rfl

namespace Course

variable {round : Nat → ExecOf Code (Option Value)} {total : Nat} {world after : World Code}

/-- A loop of no rounds. -/
theorem nil : Course round 0 world 0 (.ok none, world) :=
  ⟨fun _ impossible => absurd impossible (Nat.not_lt_zero _), .inl ⟨rfl, rfl⟩⟩

/-- The first round ends the loop. -/
theorem cut {outcome : Except Halt (Option Value)} (first : round 0 world = (outcome, after))
    (early : outcome ≠ .ok none) : Course round (total + 1) world 0 (outcome, after) :=
  ⟨fun _ impossible => absurd impossible (Nat.not_lt_zero _), .inr ⟨Nat.succ_pos _, first.symm, early⟩⟩

/-- The first round passes, and the others follow. -/
theorem cons {done : Nat} {ending : Except Halt (Option Value) × World Code}
    (first : round 0 world = (.ok none, after))
    (rest : Course (fun count => round (count + 1)) total after done ending) :
    Course round (total + 1) world (done + 1) ending := by
  have later (count : Nat) :
      worldAt round world (count + 1) = worldAt (fun count => round (count + 1)) after count := by
    rw [worldAt_succ,first]
  refine ⟨fun count below => ?_, ?_⟩
  · cases count with
    | zero => exact congrArg Prod.fst first
    | succ count =>
      rw [later]
      exact rest.passed count (Nat.lt_of_succ_lt_succ below)
  · rw [later]
    rcases rest.ended with ⟨whole, same⟩ | ⟨fewer, same, early⟩
    · exact .inl ⟨congrArg (· + 1) whole, same⟩
    · exact .inr ⟨Nat.succ_lt_succ fewer, same, early⟩

end Course

/-- The value of a loop's variable in a round, counted from zero. -/
def valueAt (upward : Bool) (first : Int) (count : Nat) : Int :=
  if upward then first + count else first - count

private theorem valueAt_succ (upward : Bool) (first : Int) (count : Nat) :
    valueAt upward first (count + 1) = valueAt upward (if upward then first + 1 else first - 1) count := by
  cases upward <;> simp only [valueAt,if_true,Bool.false_eq_true,if_false] <;> omega

private theorem course_of_each (round : Int → ExecOf Code (Option Value)) (upward : Bool) (total : Nat) (first : Int)
    (world : World Code) :
    ∃ done, Course (fun count => round (valueAt upward first count)) total world done
      (each round (integersFrom upward total first) world) := by
  -- on the rounds that are left, in the world that the one before them leaves
  induction total generalizing first world with
  | zero => exact ⟨0, .nil⟩
  | succ total ih =>
    have start : valueAt upward first 0 = first := by cases upward <;> simp [valueAt]
    rw [integersFrom,each,Exec.bind_run]
    rcases ran : round first world with ⟨halt | _ | value, after⟩
    · exact ⟨0, .cut (by rw [start,ran]) (by simp)⟩
    · obtain ⟨done, course⟩ := ih (if upward then first + 1 else first - 1) after
      simp only [← valueAt_succ] at course
      exact ⟨_, .cons (by rw [start,ran]) course⟩
    · have returned : (Except.ok (some value) : Except Halt (Option Value)) ≠ .ok none := by simp
      exact ⟨0, .cut (by rw [start,ran]) returned⟩

/-- Repeating a round is going through as many values that the round does not look at. -/
private theorem rounds_eq_each (round : ExecOf Code (Option Value)) (count : Nat) (value : Int) :
    rounds round count = each (fun _ => round) (integersFrom true count value) := by
  induction count generalizing value with
  | zero => rfl
  | succ count ih =>
    rw [rounds,integersFrom,each,ih (value + 1)]
    rfl

end Loop

/-- A world with one more frame, which is inside another one and holds some variables and nothing else. -/
def World.entered (world : World Code) (frame : FrameId) (bindings : Table Value) : World Code :=
  { world with
    scopes := ⟨world.scopes.frames.push { bindings, consts := [], outer := world.scopes.chain frame }⟩ }

namespace Machine

/-- Runs the body of a loop in a new frame that holds some variables. -/
def round (machine : Machine Code) (body : Code) (frame : FrameId) (context : ContextId)
    (bindings : Table Value) : ExecOf Code (Option Value) :=
  fun world => machine.block body world.scopes.frames.size context (world.entered frame bindings)

private theorem declare_entered (world : World Code) (frame : FrameId) (name : String) (value : Value) :
    (world.entered frame .empty).scopes.declare world.scopes.frames.size name value false =
      .ok (world.entered frame (Table.empty.insert name value)).scopes := by
  have fresh : (world.entered frame .empty).scopes.frame world.scopes.frames.size =
      { bindings := .empty, consts := [], outer := world.scopes.chain frame } := by
    simp [World.entered,Scopes.frame]
  have unbound : (Table.empty : Table Value).contains name = false := rfl
  rw [Scopes.declare,fresh,if_neg (by simp [unbound])]
  simp only [Scopes.modify,fresh]
  refine congrArg (fun frames => Except.ok (Scopes.mk frames)) (Array.toList_inj.mp ?_)
  simp [World.entered,List.set_append_right]

theorem round_single (machine : Machine Code) (body : Code) (frame : FrameId) (context : ContextId)
    (name : String) (value : Value) :
    (do
      let inner ← Exec.childFrame frame
      Exec.onScopes (·.declare inner name value false)
      machine.block body inner context) =
      machine.round body frame context (Table.empty.insert name value) := by
  funext world
  have entered : Exec.childFrame frame world = (.ok world.scopes.frames.size, world.entered frame .empty) := rfl
  rw [Exec.bind_run,entered]
  dsimp only
  rw [Exec.bind_run,Exec.onScopes_run,declare_entered]
  rfl

end Machine

/-- A loop over integers runs its body as often as its bounds say, unless a round returns or halts: then that
round is the last one, and the loop ends as it does. The bounds are evaluated once, before the first round.
Every round is in a new frame, which holds nothing but the variable of the loop, if it has one, with a value
that does not depend on what the rounds before have done. -/
theorem integer_loops_run_their_range (machine : Machine Code) (setup : Setup) (body : List Line)
    (frame : FrameId) (context : ContextId) (world : World Code) :
    (∀ token count after, machine.token token frame context world = (.ok (.number (.int count)), after) →
      0 ≤ count → count.natAbs < Nat.pow 2 1023 →
      ∃ done, Loop.Course (fun _ => machine.round (machine.code body) frame context .empty) count.toNat after
        done (machine.statement setup frame context (.loop (.count token) body) world)) ∧
    ∀ name firstToken lastToken first last middle after,
      machine.token firstToken frame context world = (.ok (.number (.int first)), middle) →
      machine.token lastToken frame context middle = (.ok (.number (.int last)), after) →
      first.natAbs < Nat.pow 2 1023 → last.natAbs < Nat.pow 2 1023 →
      ∃ done, Loop.Course
        (fun round => machine.round (machine.code body) frame context
          (Table.empty.insert name (.number (.int (Loop.valueAt (first ≤ last) first round)))))
        ((last - first).natAbs + 1) after done
        (machine.statement setup frame context (.loop (.range name firstToken lastToken) body) world) := by
  constructor
  · intro token count after evaluated positive small
    have course := Loop.course_of_each (fun _ => machine.round (machine.code body) frame context .empty) true
      count.toNat 0 after
    rw [← Loop.rounds_eq_each] at course
    have run : machine.statement setup frame context (.loop (.count token) body) world =
        Loop.rounds (machine.round (machine.code body) frame context .empty) count.toNat after := by
      simp only [Machine.statement,Machine.loop,Exec.bind_run,evaluated,Exec.liftExcept_run,
        Loop.count?_int positive small]
      rfl
    rw [run]
    exact course
  · intro name firstToken lastToken first last middle after evaluated evaluated' small small'
    have course := Loop.course_of_each (fun value => machine.round (machine.code body) frame context
      (Table.empty.insert name (.number (.int value)))) (first ≤ last) ((last - first).natAbs + 1) first after
    have run : machine.statement setup frame context (.loop (.range name firstToken lastToken) body) world =
        Loop.each (fun value => machine.round (machine.code body) frame context
          (Table.empty.insert name (.number (.int value)))) (Loop.integers first last) after := by
      simp only [Machine.statement,Machine.loop,Exec.bind_run,evaluated,evaluated',Exec.liftExcept_run,
        Loop.bounds?_int small small',Machine.round_single,Loop.through_integers]
    rw [run]
    exact course

/-- A loop downward, the body of which assigns the variable of the loop. -/
theorem integer_loops_run_their_range_downward :
    let machine := Machine.level {} 2
    let world := ({} : World).opened {}
    machine.token "3".toList 0 0 world = (.ok (.number (.int 3)), world) ∧
    machine.token "1".toList 0 0 world = (.ok (.number (.int 1)), world) ∧
    ∃ done, Loop.Course
      (fun round => machine.round ["i = 9".toList] 0 0
        (Table.empty.insert "i" (.number (.int (Loop.valueAt false 3 round)))))
      3 world done
      (machine.statement {} 0 0 (.loop (.range "i" "3".toList "1".toList) ["i = 9".toList]) world) := by
  intro machine world
  have first : machine.token "3".toList 0 0 world = (.ok (.number (.int 3)), world) := rfl
  have last : machine.token "1".toList 0 0 world = (.ok (.number (.int 1)), world) := rfl
  have small (value : Int) (few : value.natAbs < 4) : value.natAbs < Nat.pow 2 1023 := by
    refine Nat.lt_of_lt_of_le few ?_
    generalize bits : 1023 = count
    exact Nat.pow_le_pow_right (by decide : 0 < 2) (by omega : 2 ≤ count)
  exact ⟨first, last, (integer_loops_run_their_range machine {} ["i = 9".toList] 0 0 world).2 "i" _ _ 3 1 world
    world first last (small 3 (by decide)) (small 1 (by decide))⟩

end Inyandiko
