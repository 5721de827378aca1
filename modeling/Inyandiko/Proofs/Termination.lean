import Inyandiko.Proofs.Termination.Range
import Inyandiko.Proofs.Termination.Recursion

/-! Runs end. With enough levels a run does not get to the bottom of its machine, whatever stands there; its
loops over ranges of integers go through lists that are known beforehand; and expressions, paths and the
statements of blocks are read by recursions that go down. -/
namespace Inyandiko

open Source Text

/-- The world in which the statements of a script begin. -/
def World.started (world : World) (source : String) (options : RunOptions) : World :=
  (world.logged s!"run started: {(Source.lines source.toList).length} logical lines").opened options

namespace Machine

variable {setup : Setup} {source : String} {options : RunOptions} {world : World} {depth : Nat}

/-- Whether all ranges that a run gets to are ranges of integers: the guarded run does not give up. Calls
of the host's functions that do not return count as ranges of other numbers do. -/
def IntegerRanges (setup : Setup) (source : String) (options : RunOptions) (world : World) (depth : Nat) :
    Prop :=
  ((guarded setup depth).block (Source.lines source.toList) world.scopes.frames.size world.contexts.size
    (world.started source options)).1 ≠ .error .endless

private theorem block_guarded (unhosted : options.commands = .empty)
    (ranges : IntegerRanges setup source options world depth) :
    (level setup depth).block (Source.lines source.toList) world.scopes.frames.size world.contexts.size
        (world.started source options) =
      (guarded setup depth).block (Source.lines source.toList) world.scopes.frames.size world.contexts.size
        (world.started source options) := by
  have begun : (Coupling.guarding setup).Holds world.contexts.size (world.started source options) := by
    refine ⟨?_, fun _ => by simp [World.started,World.opened,World.logged]⟩
    have opened : (world.started source options).contextAt world.contexts.size = startContext options :=
      (World.contextAt_opened _ _ _).trans (if_pos rfl)
    rw [opened]
    exact unhosted
  have coupled : (Coupling.guarding setup).Rel world.contexts.size
      ((guarded setup depth).block (Source.lines source.toList) world.scopes.frames.size world.contexts.size)
      ((level setup depth).block (Source.lines source.toList) world.scopes.frames.size world.contexts.size) :=
    (Coupling.agree_guarded setup depth).block trivial trivial _
  rcases coupled (world.started source options) _ rfl begun with ⟨halt, failed, gaveUp⟩ | same
  · cases gaveUp
    exact absurd failed ranges
  · exact same.eq rfl

private theorem run_guarded (unhosted : options.commands = .empty)
    (ranges : IntegerRanges setup source options world depth) :
    (level setup (depth + 1)).run source options world =
      (guarded setup (depth + 1)).run source options world := by
  have same := block_guarded unhosted ranges
  rw [level,guarded,run_levelOf,run_levelOf]
  dsimp only
  rw [session_run,session_run]
  exact congrArg
    (fun ended => conclude options.hooks world.scopes.frames.size world.contexts.size ended.1 ended.2) same

private theorem conclude_ne_endless {hooks : Hooks} {root : FrameId} {context : ContextId}
    {outcome : Except Halt (Option Value)} (ends : outcome ≠ .error .endless) (world : World) :
    (conclude hooks root context outcome world).1 ≠ .error .endless := by
  have aborted (halt : Halt) (other : halt ≠ .endless) :
      (abort hooks halt world : Except Halt Record × World).1 ≠ .error .endless := by
    obtain ⟨start, finish, error⟩ := hooks
    rcases error with _ | mode
    · exact fun failed => other (Except.error.inj failed)
    · cases mode with
      | quiet => exact fun failed => other (Except.error.inj failed)
      | failing => nofun
  rcases outcome with halt | signal
  · cases halt with
    | invalid line => nofun
    | endless => exact absurd rfl ends
    | _ => exact aborted _ nofun
  · nofun

/-- What it means that a run ends by itself, on the machine of a level. -/
structure Terminates (setup : Setup) (source : String) (options : RunOptions) (world : World)
    (depth : Nat) : Prop where
  /-- It gives a record or an error. -/
  ends : ((level setup (depth + 1)).run source options world).1 ≠ .error .endless
  /-- It goes through every range as through a list of integers. -/
  ranges : (level setup (depth + 1)).run source options world =
    (guarded setup (depth + 1)).run source options world
  /-- If there are levels enough, none of their number and of what stands below them matters. -/
  levels (deep : enough setup source ≤ depth) (bottom : Machine) (plain : bottom.code = id) (more : Nat) :
    (above setup bottom (more + (depth + 1))).run source options world =
      (level setup (depth + 1)).run source options world
  /-- Expressions are evaluated by way of shorter ones. -/
  expressions (lookup : String → Option Value) (bottom : Token → HeapM Value) {token : Token} {nested : Nat}
    (deep : token.length < nested) :
    unrolled (evaluateStep lookup) bottom nested token = evaluateWithin lookup (token.length + 1) token
  /-- Paths are read by way of shorter ones. -/
  paths (bottom : Chars → Except Crash (Option (List Step))) {text : Chars} {nested : Nat}
    (deep : text.length < nested) : unrolled Path.stepsFrom bottom nested text = Path.steps text.length text
  /-- The statements of a block are read by way of the lines after each of them. -/
  statements (bottom : List Line → List Statement.Item) {lines : List Line} {nested : Nat}
    (deep : lines.length < nested) : unrolled Statement.itemsFrom bottom nested lines = Statement.items lines

end Machine

/-- Without commands of the host, a run ends on every level if it gets to ranges of integers only, and from
some level on it ends the same way. Scripts are executed on the level `Machine.levels`. -/
theorem runs_terminate (setup : Setup) (source : String) (options : RunOptions)
    (unhosted : options.commands = .empty) (world : World) (depth : Nat)
    (ranges : Machine.IntegerRanges setup source options world depth) :
    Machine.Terminates setup source options world depth where
  ends := by
    have work : ((Machine.level setup depth).block (Source.lines source.toList) world.scopes.frames.size
        world.contexts.size (world.started source options)).1 ≠ .error .endless := by
      rw [Machine.block_guarded unhosted ranges]
      exact ranges
    rw [Machine.level,Machine.run_levelOf]
    exact Machine.conclude_ne_endless work _
  ranges := Machine.run_guarded unhosted ranges
  levels deep bottom plain more := by
    rw [Machine.level_eq_above,← Machine.above_above]
    exact Machine.run_above_eq (Machine.code_above plain more) rfl deep unhosted world
  expressions lookup bottom _ _ deep := evaluateWithin_settles lookup bottom deep
  paths bottom _ _ deep := Path.steps_settle bottom deep
  statements bottom _ _ deep := Statement.items_settle bottom deep

namespace Recursive

/-- A loop over integers going down, and a function that calls itself over and over. -/
def source : String :=
  "subiramo(i, 2, 1) \x7b\nlet s = i\n\x7d\numukoro f() \x7b\ngarura f()\n\x7d\nf()"

/-- Two calls may be under way. -/
def setup : Setup := { maxCallDepth := 2 }

/-- Whether a loop was given up. -/
def gaveUp : Except Halt (Option Value) → Bool
  | .error .endless => true
  | _ => false

private theorem integerRanges : Machine.IntegerRanges setup source {} {} (Machine.enough setup source) := by
  have finite : gaveUp ((Machine.guarded setup (Machine.enough setup source)).block
      (Source.lines source.toList) 0 0 (World.started {} source {})).1 = false := by decide +kernel
  exact fun failed => Bool.false_ne_true (finite.symm.trans (congrArg gaveUp failed))

end Recursive

open Recursive in
theorem runs_terminate_recursive :
    Machine.IntegerRanges setup source {} {} (Machine.enough setup source) ∧
      Machine.Terminates setup source {} {} (Machine.enough setup source) :=
  ⟨integerRanges, runs_terminate setup source {} rfl {} _ integerRanges⟩

end Inyandiko
