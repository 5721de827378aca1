import Inyandiko.Machine
import Inyandiko.Value.Convert

/-! Options of runs by name. Options are merged name by name: variables, dependencies and commands
entry by entry, anything else as a whole. -/
namespace Inyandiko

inductive Setting
  | table (entries : Table Value)
  | plain (value : Value)

abbrev Options := Table Setting

namespace Options

def mergedNames : List String := ["variables", "dependencies", "commands"]

/-- The entries that a setting brings along; a value that is no table is refused. -/
def entriesOf (heap : Heap) : Setting → Except Crash (Table Value)
  | .table entries => .ok entries
  | .plain value =>
    match heap.entries? value with
    | some entries => .ok entries
    | none =>
      let kind := heap.kindName value
      .error (.wrongType s!"'{kind}' object is not a mapping")

/-- The entries that new ones are added to; nothing counts as no entries. -/
def baseEntries (heap : Heap) : Option Setting → Except Crash (Table Value)
  | none => .ok .empty
  | some (.table entries) => .ok entries
  | some (.plain value) => if heap.isVoid value then .ok .empty else entriesOf heap (.plain value)

def overridden (heap : Heap) (base : Options) (name : String) (setting : Setting) :
    Except Crash Setting :=
  match setting with
  | .plain .null => .ok setting
  | setting =>
    if mergedNames.contains name then do
      let old ← baseEntries heap (base.get? name)
      return .table (old.merge (← entriesOf heap setting))
    else .ok setting

def mergeEntries (heap : Heap) (base : Options) (merged : Options) :
    List (String × Setting) → Except Crash Options
  | [] => .ok merged
  | (name, setting) :: entries => do
    let setting ← overridden heap base name setting
    mergeEntries heap base (merged.insert name setting) entries

def merge (heap : Heap) (base overrides : Options) : Except Crash Options :=
  mergeEntries heap base base overrides.entries

/-- The entries of a table option, none when it is absent or void. -/
def tableOf (heap : Heap) (options : Options) (name : String) : Except Crash (Table Value) :=
  baseEntries heap (options.get? name)

def isOn (heap : Heap) (options : Options) (name : String) (default : Bool) : Bool :=
  match options.get? name with
  | none => default
  | some (.table entries) => !entries.entries.isEmpty
  | some (.plain value) => !heap.isVoid value

def toRun (heap : Heap) (options : Options) (surface : Option Nat) :
    Except Crash RunOptions := do
  return {
    vars := ← options.tableOf heap "variables"
    dependencies := ← options.tableOf heap "dependencies"
    commands := handlerNames (← options.tableOf heap "commands")
    stopOnInvalid := options.isOn heap "stop_on_validation_fail" true
    injectDependencies := options.isOn heap "inject_dependencies_as_variables" false
    surface }

end Options

end Inyandiko
