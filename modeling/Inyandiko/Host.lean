import Inyandiko.Source
import Inyandiko.Value

/-! The host of scripts: its functions, its commands, its hooks, and what it may replace. A
command of the host is a tree of requests: it may look into the heap and make objects there, look
at, set and remove visible names, and have further scripts run. -/
namespace Inyandiko

open Source

/-- The outcome of a run that ended by itself or at a failed validation. -/
structure Record where
  failedLine : Option String
  vars : Table Value
  exports : Table Value
  results : List Value

def Record.ok (record : Record) : Bool := record.failedLine.isNone

structure Overrides where
  vars : Table Value := .empty
  dependencies : Table Value := .empty
  commands : Table String := .empty
  stop : Option Bool := none
  elements : Option (Table Value) := none

def handlerNames (commands : Table Value) : Table String :=
  .ofList (commands.entries.filterMap fun
    | (name, .text handler) => some (name, handler)
    | _ => none)

structure CommandContext where
  args : List Value
  dependencies : Table Value
  line : String
  command : String

inductive Action
  | done (value : Value)
  | fail (halt : Halt)
  | examine (next : Heap → Action)
  | make (object : Object) (next : Value → Action)
  | visible (next : Table Value → Action)
  | assign (name : String) (value : Value) (next : Action)
  | erase (name : String) (next : Action)
  | run (source : String) (overrides : Overrides) (next : Record → Action)

/-- A family of commands that the host puts in place of a built-in one, by name. -/
abbrev Family := String

structure Host where
  call : Callee → List Value → HeapM Value
  handler : String → CommandContext → Action
  /-- What a family makes of a line where some names are visible; `none` if it does not take charge. -/
  family : Family → Line → Table Value → HeapM (Option Value)

def Host.bare : Host where
  call _ _ := throw (.crash (.wrongType "object is not callable"))
  handler _ _ := .done .null
  family _ _ _ := return none

inductive HookMode
  | quiet
  | failing
  deriving DecidableEq, Repr

structure Hooks where
  start : Option HookMode := none
  finish : Option HookMode := none
  error : Option HookMode := none
  deriving DecidableEq, Repr

structure Reply where
  text : String := ""
  status : Int := 200
  contentType : String := ""
  deriving DecidableEq, Repr

structure Setup where
  host : Host := .bare
  maxCallDepth : Int := 64
  /-- The time that a network request may take, in seconds. -/
  timeout : Value := .number (.float (.ofInt 10))
  environment : Option Family := none
  validation : Option Family := none
  network : Option Family := none
  /-- The room for the values of a record that is handed out. -/
  handingOut : Nat := 989
  replies : Table Reply := .empty

end Inyandiko
