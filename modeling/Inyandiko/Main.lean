import Inyandiko.CommandLine

/-! The program: gathers what the command line needs from its surroundings, and shows what it
says. -/
namespace Inyandiko.CommandLine

def readFile? (path : String) : IO (Option (List UInt8)) := do
  try
    return some (← IO.FS.readBinFile path).toList
  catch _ => return none

def Outcome.show (outcome : Outcome) : IO UInt32 := do
  IO.print outcome.output
  IO.eprint outcome.errors
  match outcome.served with
  | some port =>
    IO.eprintln s!"No transport to serve on port {port}"
    return 1
  | none => return UInt32.ofNat outcome.status

def program (argv : List String) : IO UInt32 := do
  let port ← IO.getEnv "PORT"
  let wanted := wantedFile? port argv
  let bytes ← match wanted with
    | some path => readFile? path
    | none => pure none
  let file? := fun path => if some path = wanted then bytes else none
  match call {} { file?, port } argv with
  | .error _ =>
    IO.eprintln "Error: the run could not be completed"
    return 1
  | .ok outcome => outcome.show

end Inyandiko.CommandLine

def main (argv : List String) : IO UInt32 := Inyandiko.CommandLine.program argv
