import Inyandiko.Command.Environment
import Inyandiko.Text.Pattern

/-! Checks of the surface's elements. A check tells whether there is a problem. -/
namespace Inyandiko

open Text Source

namespace Validation

variable {Code : Type}

def textOf (surface : Surface) (selector : String) : Except Halt Chars := do
  match ← surface.read selector with
  | .text s => return s.toList
  | _ => throw (.ofCause (.notTextElement selector))

def isEmpty (surface : Surface) (selector : String) : Except Halt Bool :=
  return trim (← textOf surface selector) = []

def isAddressChar (c : Char) : Bool := !isBlank c && c ≠ '@'

/-- Something, the at sign, and something with a dot inside. -/
def address : Pattern :=
  [.run isAddressChar, .one '@', .run isAddressChar, .one '.', .run isAddressChar, .finish]

def isNotAddress (surface : Surface) (selector : String) : Except Halt Bool :=
  return !address.isMatch (trim (← textOf surface selector))

def differ (surface : Surface) (first second : String) : Except Halt Bool := do
  let one ← textOf surface first
  let other ← textOf surface second
  return one ≠ other

def names : List String := ["idafite_agaciro", "si_imererwe_neza", "ntibihuye"]

def perform (call : Call) (surface : Option Nat) (frame : FrameId) : ExecOf Code Bool := do
  match surface with
  | none => Exec.fail .validationSurface
  | some surface =>
    match call.name with
    | "idafite_agaciro" =>
      let selector ← Exec.hostText (← call.evaluateOne frame)
      liftExcept (isEmpty (← Exec.surface surface) selector)
    | "si_imererwe_neza" =>
      let selector ← Exec.hostText (← call.evaluateOne frame)
      liftExcept (isNotAddress (← Exec.surface surface) selector)
    | _ =>
      let (first, second) ← call.evaluateTwo frame
      let first ← Exec.hostText first
      let second ← Exec.hostText second
      liftExcept (differ (← Exec.surface surface) first second)

def handle (line : Line) (surface : Option Nat) (frame : FrameId) : ExecOf Code (Option Value) :=
  match Call.parseNamed? line names with
  | some call => do return some (.bool (← perform call surface frame))
  | none => return none

end Validation

end Inyandiko
