import Inyandiko.Machine.Level
import Inyandiko.Options
import Inyandiko.Text.Utf8

/-! Runners: a set of options that every script starts with, and more of them per run. -/
namespace Inyandiko

/-- A runner: what is fixed, the surface, and the options that every run starts from. -/
structure Runner where
  setup : Setup
  surface : Option Nat := none
  options : Options := .empty

namespace Runner

def merged (base overrides : Options) : Exec Options := do
  let heap := (← get).heap
  liftExcept ((Options.merge heap base overrides).mapError Halt.crash)

def withOptions (runner : Runner) (overrides : Options) : Exec Runner := do
  return { runner with options := ← merged runner.options overrides }

def execute (runner : Runner) (source : String) (overrides : Options) : Exec Record := do
  let options ← merged runner.options overrides
  let heap := (← get).heap
  let options ← liftExcept ((options.toRun heap runner.surface).mapError Halt.crash)
  Inyandiko.execute runner.setup source options

/-- Runs scripts in order up to the first one that a validation stops. -/
def executeMany (runner : Runner) (overrides : Options) : List String → Exec (List Record)
  | [] => return []
  | source :: sources => do
    let record ← runner.execute source overrides
    match record.failedLine with
    | some line =>
      Exec.log .debug .runner s!"stopping after validation failure: {line}"
      return [record]
    | none => return record :: (← runner.executeMany overrides sources)

def executeFile (runner : Runner) (path : String) (bytes : List UInt8) : Exec Record := do
  match Text.Utf8.decode bytes with
  | .error refusal => throw (.crash (.undecodable refusal.message))
  | .ok source =>
    Exec.log .debug .runner s!"running {path}"
    runner.execute (String.ofList source) .empty

end Runner

end Inyandiko
