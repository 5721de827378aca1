import Inyandiko.Machine

/-! Loops. A loop goes through its rounds until one of them returns. -/
namespace Inyandiko

open Source

variable {Code : Type}

namespace Loop

def rounds (round : ExecOf Code (Option Value)) : Nat → ExecOf Code (Option Value)
  | 0 => return none
  | count + 1 => do
    match ← round with
    | some value => return some value
    | none => rounds round count

/-- The number of rounds that a value asks for: a finite integral number that is not negative. -/
def count? : Value → Except Halt (Option Nat)
  | .number n => do
    match n.isFinite with
    | .error crash => throw (.crash crash)
    | .ok false => return none
    | .ok true =>
      match n.normalize with
      | .int count => return if count < 0 then none else some count.toNat
      | .float _ => return none
  | _ => .ok none

def advance (upward : Bool) : Number → Number
  | .int n => .int (if upward then n + 1 else n - 1)
  | .float x => .float (x.add (.ofInt (if upward then 1 else -1)))

def within (upward : Bool) (last value : Number) : Bool :=
  (value.compare? last).any fun order => if upward then order.isLE else order.isGE

/-- Goes through the values from one on until the last one is passed. The bound on the number of
rounds is never reached by values that advance. -/
def through (round : Number → ExecOf Code (Option Value)) (upward : Bool) (last : Number) :
    (bound : Nat) → Number → ExecOf Code (Option Value)
  | 0, value => if within upward last value then throw .endless else return none
  | bound + 1, value =>
    if within upward last value then do
      match ← round value with
      | some result => return some result
      | none => through round upward last bound (advance upward value)
    else return none

/-- The number of rounds after which a loop of floating-point values is given up. -/
def patience : Nat := Nat.pow 2 64

/-- A bound on the rounds of a loop: the exact number for integers. -/
def roundBound (upward : Bool) (first last : Number) : Nat :=
  match first with
  | .int n =>
    let limit := match last with
      | .int m => m
      | .float x => if upward then x.floor?.getD n else -(x.neg.floor?.getD (-n))
    (if upward then limit - n + 1 else n - limit + 1).toNat
  | .float _ => patience

def bound? : Value → Except Halt (Option Number)
  | .number n =>
    match n.isFinite with
    | .error crash => .error (.crash crash)
    | .ok finite => .ok (if finite then some n else none)
  | _ => .ok none

/-- The bounds of a range; both have to be numbers before either is looked at. -/
def bounds? : Value → Value → Except Halt (Option (Number × Number))
  | .number first, .number last => do
    let some first ← bound? (.number first) | return none
    let some last ← bound? (.number last) | return none
    return some (first, last)
  | _, _ => .ok none

end Loop

namespace Machine

/-- Runs a loop. The bounds are evaluated once; every round has a frame of its own. -/
def loop (machine : Machine Code) (header : LoopHeader) (body : Code) (frame : FrameId)
    (context : ContextId) : ExecOf Code (Option Value) := do
  match header with
  | .count token =>
    match ← liftExcept (Loop.count? (← machine.token token frame context)) with
    | none => Exec.fail (.badCount (String.ofList token))
    | some count =>
      Loop.rounds (do machine.block body (← Exec.childFrame frame) context) count
  | .range name firstToken lastToken =>
    let start ← machine.token firstToken frame context
    let stop ← machine.token lastToken frame context
    match ← liftExcept (Loop.bounds? start stop) with
    | none => Exec.fail (.badBounds (String.ofList firstToken) (String.ofList lastToken))
    | some (first, last) =>
      let upward := (first.compare? last).any Ordering.isLE
      let round := fun value => do
        let inner ← Exec.childFrame frame
        Exec.onScopes (·.declare inner name (.number value) false)
        machine.block body inner context
      Loop.through round upward last (Loop.roundBound upward first last) first

end Machine

end Inyandiko
