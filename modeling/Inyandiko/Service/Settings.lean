import Inyandiko.Value.Convert

/-! Settings that clients of the service may ask for. They are capped by the service's own. -/
namespace Inyandiko

structure CappedSettings where
  maxCallDepth : Int := 64
  timeout : Binary64 := .ofInt 10
  deriving DecidableEq, Repr

/-- The least time for a network request, in seconds. -/
def leastTimeout : Binary64 := .round false 1 10

namespace CappedSettings

def capDepth (asked : Int) : Int := max 1 (min asked ({} : CappedSettings).maxCallDepth)

/-- The time between the least one and the service's own; the least one for what is no number. -/
def capTimeout (asked : Binary64) : Binary64 :=
  let most := ({} : CappedSettings).timeout
  let capped := if most.compare? asked = some .lt then most else asked
  if capped.compare? leastTimeout = some .gt then capped else leastTimeout

def ofTable (heap : Heap) (asked : Table Value) : Except Crash CappedSettings := do
  if asked.entries.isEmpty then return {}
  let depth ← match asked.get? "max_call_depth" with
    | some value => heap.toInteger value
    | none => pure ({} : CappedSettings).maxCallDepth
  let timeout ← match asked.get? "network_timeout_s" with
    | some value => heap.toFloat value
    | none => pure ({} : CappedSettings).timeout
  return { maxCallDepth := capDepth depth, timeout := capTimeout timeout }

end CappedSettings

end Inyandiko
