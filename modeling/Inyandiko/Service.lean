import Inyandiko.Machine.Level
import Inyandiko.Service.ScriptPath
import Inyandiko.Service.Settings

/-! The service: it runs the script of a request and answers with a payload, also when the script
fails. -/
namespace Inyandiko

structure RunRequest where
  code : Option String := none
  file : Option String := none
  vars : Option (Table Value) := none
  elements : Option (Table Value) := none
  settings : Option (Table Value) := none
  stopOnInvalid : Bool := true

namespace RunRequest

def yesWords : List String := ["1", "true", "t", "yes", "y", "on"]

def noWords : List String := ["0", "false", "f", "no", "n", "off"]

/-- Reads a flag of a request: a truth value, zero or one, or a word for yes or no. -/
def flag? : Json → Option Bool
  | .bool b => some b
  | .int n => if n = 0 then some false else if n = 1 then some true else none
  | .float x =>
    if x.compare? (.ofInt 0) = some .eq then some false
    else if x.compare? (.ofInt 1) = some .eq then some true
    else none
  | .text s =>
    let word := String.ofList (s.toList.map Char.toLower)
    if yesWords.contains word then some true
    else if noWords.contains word then some false
    else none
  | _ => none

end RunRequest

structure SurfaceReport where
  elements : List (String × Datum)
  styles : Table (Table String)
  alerts : List String

structure Payload where
  ok : Bool
  failedLine : Option String := none
  vars : List (String × Datum) := []
  exports : List (String × Datum) := []
  results : List Datum := []
  surface : Option SurfaceReport := none
  errors : Option Json := none

namespace Service

def failure (errors : Json) : Payload := { ok := false, errors := some errors }

def problem (code message : String) : Json := .object [("code", .text code), ("message", .text message)]

def health : Json := .object [("status", .text "ok")]

/-- The text of the script of a request, or the answer that there is none. -/
def source (tree : FileTree) (root : Location) (request : RunRequest) : Except Payload String :=
  match request.code, request.file with
  | some code, _ => .ok code
  | none, none | none, some "" =>
    .error (failure (problem "BAD_REQUEST" "Provide either code or file."))
  | none, some name =>
    match readScript tree root name with
    | .ok text => .ok text
    | .error error => .error (failure (problem "FILE_ERROR" error.message))

def run (setup : Setup) (request : RunRequest) (source : String) (surface : Option Nat) : Exec Record := do
  let heap := (← get).heap
  let settings ← liftExcept
    ((CappedSettings.ofTable heap (request.settings.getD .empty)).mapError Halt.crash)
  execute
    { setup with maxCallDepth := settings.maxCallDepth, timeout := .number (.float settings.timeout) }
    source
    { vars := request.vars.getD .empty, stopOnInvalid := request.stopOnInvalid, surface }

def success (room : Nat) (record : Record) (surface : Option Nat) : Exec Payload := do
  let world ← get
  let vars ← Exec.askHeap (·.handOutTable room record.vars)
  let exports ← Exec.askHeap (·.handOutTable room record.exports)
  let results ← Exec.askHeap fun heap => record.results.mapM (heap.handOut room)
  let surface ← match surface.bind (world.surfaces[·]?) with
    | some surface => do
      -- the elements stand by themselves, not inside a record
      let elements ← Exec.askHeap (·.handOutTable (room + 2) surface.elements)
      pure (some { elements, styles := surface.styles, alerts := surface.alerts.toList : SurfaceReport })
    | none => pure none
  return { ok := record.ok, failedLine := record.failedLine, vars, exports, results, surface }

def explain (halt : Halt) : Exec Payload := do
  match halt with
  | .fault fault =>
    Exec.log .warning .service s!"run failed: {fault.cause.message}"
    return failure fault.report.toJson
  | .crash crash =>
    Exec.log .warning .service s!"run crashed: {crash.report}"
    return failure (problem "SERVER_ERROR" crash.report)
  | halt => throw halt

def handle (setup : Setup) (tree : FileTree) (root : Location) (request : RunRequest) : Exec Payload := do
  match source tree root request with
  | .error payload => return payload
  | .ok source =>
    let surface ← match request.elements with
      | some elements => some <$> Machine.newSurface elements
      | none => pure none
    match ← Exec.attempt (run setup request source surface) with
    | .ok record => success setup.handingOut record surface
    | .error halt => explain halt

end Service

end Inyandiko
