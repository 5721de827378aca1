import Inyandiko.Proofs.Termination.Depth

/-! Loops over ranges of integers. Such a loop goes through a list of integers, which is known before its
first round. A guarded machine goes through such lists only and gives up at any other range; where it does
not give up, the machine does the same. -/
namespace Inyandiko

open Source

namespace Loop

variable {Code : Type}

/-- A number of integers from one on, upward or downward. -/
def integersFrom (upward : Bool) : Nat → Int → List Int
  | 0, _ => []
  | count + 1, value => value :: integersFrom upward count (if upward then value + 1 else value - 1)

/-- The integers of a range, both bounds included. -/
def integers (first last : Int) : List Int := integersFrom (first ≤ last) ((last - first).natAbs + 1) first

/-- Goes through values until a round returns. -/
def each (round : Int → ExecOf Code (Option Value)) : List Int → ExecOf Code (Option Value)
  | [] => return none
  | value :: values => do
    match ← round value with
    | some result => return some result
    | none => each round values

/-- How far a value is from having passed the last one. -/
def ahead (upward : Bool) (last value : Int) : Int :=
  if upward then last - value + 1 else value - last + 1

private theorem within_int (upward : Bool) (last value : Int) :
    within upward (.int last) (.int value) = true ↔ 0 < ahead upward last value := by
  cases upward with
  | true =>
    have order : within true (.int last) (.int value) = (compare value last).isLE := rfl
    rw [order,Std.isLE_compare,ahead,if_pos rfl]
    omega
  | false =>
    have order : within false (.int last) (.int value) = (compare value last).isGE := rfl
    rw [order,Std.isGE_compare,ahead,if_neg Bool.false_ne_true]
    omega

/-- The rounds of integers are as many as the bound says, so the bound is not exceeded. -/
private theorem through_int (round : Number → ExecOf Code (Option Value)) {upward : Bool} {last value : Int}
    {count : Nat} (exact : (ahead upward last value).toNat = count) :
    through round upward (.int last) count (.int value) =
      each (fun value => round (.int value)) (integersFrom upward count value) := by
  induction count generalizing value with
  | zero =>
    have passed : ¬within upward (.int last) (.int value) = true := by
      rw [within_int]
      omega
    rw [through,if_neg passed]
    rfl
  | succ count ih =>
    have next : (ahead upward last (if upward then value + 1 else value - 1)).toNat = count := by
      cases upward <;> simp only [ahead,if_true,Bool.false_eq_true,if_false] at exact ⊢ <;> omega
    have going : within upward (.int last) (.int value) = true := by
      rw [within_int]
      omega
    rw [through,if_pos going,integersFrom,each,← ih next]
    rfl

/-- A loop over a range of integers goes through the integers of the range. -/
theorem through_integers (round : Number → ExecOf Code (Option Value)) (first last : Int) :
    through round (((Number.int first).compare? (.int last)).any Ordering.isLE) (.int last)
        (roundBound (((Number.int first).compare? (.int last)).any Ordering.isLE) (.int first) (.int last))
        (.int first) =
      each (fun value => round (.int value)) (integers first last) := by
  have upward : ((Number.int first).compare? (.int last)).any Ordering.isLE = decide (first ≤ last) :=
    Bool.eq_iff_iff.mpr (Std.isLE_compare.trans decide_eq_true_iff.symm)
  rw [upward,integers]
  have rounds : roundBound (decide (first ≤ last)) (.int first) (.int last) = (last - first).natAbs + 1 := by
    simp only [roundBound,decide_eq_true_eq]
    split <;> omega
  rw [rounds]
  refine through_int round ?_
  simp only [ahead,decide_eq_true_eq]
  split <;> omega

end Loop

namespace Machine

/-- A round of a loop over a range. -/
def rangeRound (machine : Machine) (name : String) (body : List Line) (frame : FrameId)
    (context : ContextId) (value : Number) : Exec (Option Value) := do
  let inner ← Exec.childFrame frame
  Exec.onScopes (·.declare inner name (.number value) false)
  machine.block body inner context

/-- Runs a loop over a range of integers; any other range is given up. -/
def integerLoop (machine : Machine) (name : String) (firstToken lastToken : Token) (body : List Line)
    (frame : FrameId) (context : ContextId) : Exec (Option Value) := do
  let start ← machine.token firstToken frame context
  let stop ← machine.token lastToken frame context
  match ← liftExcept (Loop.bounds? start stop) with
  | none => Exec.fail (.badBounds (String.ofList firstToken) (String.ofList lastToken))
  | some (.int first, .int last) =>
    Loop.each (fun value => machine.rangeRound name body frame context (.int value))
      (Loop.integers first last)
  | some _ => throw .endless

/-- Runs a statement; a range is gone through only if it is one of integers. -/
def guardedStatement (machine : Machine) (setup : Setup) (frame : FrameId) (context : ContextId) :
    Statement → Exec (Option Value)
  | .loop (.range name first last) body =>
    machine.integerLoop name first last (machine.code body) frame context
  | statement => machine.statement setup frame context statement

/-- Runs the statements of a block of lines, each of them guarded. -/
def guardedBlock (setup : Setup) (machine : Machine) (lines : List Line) (frame : FrameId)
    (context : ContextId) : Exec (Option Value) :=
  items (machine.guardedStatement setup frame context) (Statement.items lines)

/-- The guarded machine of a level. -/
def guarded (setup : Setup) : Nat → Machine := levelOf setup id (guardedBlock setup)

end Machine

/-- The coupling of a guarded run with the run itself: nothing is said after the guard gave up. -/
def Coupling.guarding (setup : Setup) : Coupling setup :=
  .exact setup (fun run => run.commands = .empty) (fun _ => True) (fun halt => halt = .endless)
    (fun _ _ given => by rw [given]; rfl) (fun _ _ known => known) (fun _ _ known => known)
    (fun _ _ _ known _ => known) fun _ known => known

namespace Coupling

variable {setup : Setup} {machine machine' : Machine} {context : ContextId}

private theorem guarding_gaveUp {α : Type} (work : Exec α) :
    (guarding setup).Rel context (MonadExcept.throw Halt.endless) work :=
  fun _ _ _ _ => .inl ⟨.endless, rfl, rfl⟩

private theorem integerLoop (agree : (guarding setup).discipline.AgreeFully machine machine') (name : String)
    (firstToken lastToken : Token) (body : List Line) (frame : FrameId) :
    (guarding setup).Rel context
      (machine.integerLoop name firstToken lastToken body frame context)
      (machine'.loop (.range name firstToken lastToken) body frame context) := by
  let D := (guarding setup).discipline
  refine D.bind (agree.token trivial trivial context (some frame)) fun start _ => ?_
  refine D.bind (agree.token trivial trivial context (some frame)) fun stop _ => ?_
  refine D.bind (D.liftExcept (fun _ _ _ _ => trivial) fun _ _ => trivial) fun bounds _ => ?_
  rcases bounds with _ | ⟨first, last⟩
  · exact D.fail _ nofun
  · cases first with
    | float first => exact guarding_gaveUp _
    | int first =>
      cases last with
      | float last => exact guarding_gaveUp _
      | int last =>
        -- both go through the same integers, so the guarded loop is written as the other one is
        have rounds (value : Number) : D.Rel context (some frame)
            (machine.rangeRound name body frame context value)
            (machine'.rangeRound name body frame context value) :=
          D.rangeRound agree.toBlocks trivial name trivial value
        dsimp only
        rw [← Loop.through_integers]
        exact D.through rounds _ _ _ _

/-- The guarded machine does what the machine does, unless it gives up. -/
theorem agree_guarded (setup : Setup) (depth : Nat) :
    (guarding setup).discipline.AgreeFully (Machine.guarded setup depth) (Machine.level setup depth) := by
  let D := (guarding setup).discipline
  have counts : D.Counts := (guarding setup).counts trivial (fun _ known => known) fun _ known => known
  refine D.agree_levelOf counts (guarding setup).tells (fun _ => trivial) id (fun _ => rfl)
    (fun machine machine' _ agree lines {frame} _ context => ?_) depth
  refine D.items (Statement.strict_items lines) fun item _ statement _ => ?_
  have usual : D.Rel context (some frame) (machine.statement setup frame context statement)
      (machine'.statement setup frame context statement) :=
    D.statement agree (guarding setup).tells trivial (fun _ _ => trivial) (fun _ _ => trivial)
      fun _ _ => D.runs_fully id _
  cases statement with
  | loop header body =>
    cases header with
    | count rounds => exact usual
    | range name first last =>
      simp only [Machine.guardedStatement,Machine.statement,← agree.code]
      exact integerLoop agree name first last (machine.code body) frame
  | _ => exact usual

end Coupling

end Inyandiko
