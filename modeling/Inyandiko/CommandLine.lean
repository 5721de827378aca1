import Inyandiko.CommandLine.Arguments
import Inyandiko.Number.Numeral
import Inyandiko.Runner

/-! The command line: runs a script file, or says where the service is to be started. The status
is zero for success, two for a failed validation, and one for everything else. -/
namespace Inyandiko.CommandLine

structure Surroundings where
  file? : String → Option (List UInt8)
  port : Option String := none

inductive Task
  | run (path : String)
  | serve (port : Int)
  deriving DecidableEq, Repr

def defaultScript : String := "index.ikw"

def defaultPort : String := "3000"

def servePort (port : Option String) : List String → Except String Int
  | _ :: _ :: _ => .error "usage: ikin serve [port]\n"
  | words =>
    let raw := (words.head? <|> port).getD defaultPort
    (Numeral.readInt raw).mapError fun _ => s!"Invalid port: {raw}\n"

def runPath : List String → Except String String
  | [] => .ok defaultScript
  | [path] => .ok path
  | _ => .error "usage: ikin [run] [file.ikw]\n"

def task (port : Option String) : List String → Except String Task
  | "serve" :: words => (servePort port words).map .serve
  | "run" :: words => (runPath words).map .run
  | words => (runPath words).map .run

def wantedFile? (port : Option String) (argv : List String) : Option String :=
  match parse argv with
  | .error _ => none
  | .ok invocation =>
    match task port invocation.words with
    | .ok (.run path) => some path
    | _ => none

def scriptFile (surroundings : Surroundings) (path : String) : Except String (List UInt8) :=
  if !path.endsWith ".ikw" then .error s!"Expected a .ikw file, got: {path}\n"
  else match surroundings.file? path with
    | some bytes => .ok bytes
    | none => .error s!"Script not found: {path}\n"

/-- How a run ended: the status, and what is still to be said on both channels. -/
structure Closing where
  status : Nat
  output : String := ""
  errors : String := ""
  deriving DecidableEq, Repr

def remark (label : String) : Option String → String
  | none | some "" => ""
  | some text => s!"  {label}: {text}\n"

def explain (report : Report) : String :=
  s!"{report.category.code}: {report.message}\n" ++ remark "at" report.line ++ remark "hint" report.hint

def recordJson (room : Nat) (record : Record) : Exec Json := do
  let vars ← Exec.askHeap (·.handOutTable room record.vars)
  let exports ← Exec.askHeap (·.handOutTable room record.exports)
  let results ← Exec.askHeap fun heap => record.results.mapM (heap.handOut room)
  let table := Datum.dict <|
    [("ok", .bool record.ok)] ++ (record.failedLine.map fun line => ("failed_line", Datum.text line)).toList ++
    [("variables", .dict vars), ("exports", .dict exports), ("results", .list results)]
  liftExcept (table.toJson.mapError Halt.crash)

def close (setup : Setup) (invocation : Invocation) (record : Record) : Exec Closing := do
  let output ← if invocation.json then
      pure (String.ofList (← recordJson setup.handingOut record).writeIndented ++ "\n")
    else pure ""
  match record.failedLine with
  | none => return { status := 0, output }
  | some line => return { status := 2, output, errors := s!"Validation failed at line: {line}\n" }

def runScript (setup : Setup) (invocation : Invocation) (path : String) (bytes : List UInt8) :
    Exec Closing := do
  let stop : Setting := .plain (.bool invocation.stopOnInvalid)
  let runner : Runner := { setup, options := .ofList [("stop_on_validation_fail", stop)] }
  match ← Exec.attempt (runner.executeFile path bytes) with
  | .ok record => close setup invocation record
  | .error (.fault fault) => return { status := 1, errors := explain fault.report }
  | .error (.crash crash) =>
    Exec.log .debug .commandLine "script crashed"
    return { status := 1, errors := s!"Error: {crash.report}\n" }
  | .error halt => throw halt

structure Outcome where
  status : Nat
  /-- Whether the program ended over its arguments. -/
  early : Bool := false
  output : String := ""
  errors : String := ""
  served : Option Int := none
  deriving DecidableEq, Repr

def Stop.outcome : Stop → Outcome
  | .help => { status := 0, early := true, output := helpText }
  | .complaint message =>
    { status := 2, early := true, errors := usage ++ s!"ikin: error: {message}\n" }

/-- What a finished run shows on both channels: its output and its log, then its closing words. -/
def Closing.outcome (closing : Closing) (verbose : Bool) (world : World) : Outcome where
  status := closing.status
  output := world.printed ++ closing.output
  errors := String.join ((world.logLines verbose).map (· ++ "\n")) ++ closing.errors

def perform (setup : Setup) (surroundings : Surroundings) (invocation : Invocation) :
    Except Halt Outcome :=
  match task surroundings.port invocation.words with
  | .error message => .ok { status := 1, errors := message }
  | .ok (.serve port) => .ok { status := 0, served := some port }
  | .ok (.run path) =>
    match scriptFile surroundings path with
    | .error message => .ok { status := 1, errors := message }
    | .ok bytes =>
      let (closing, world) := runScript setup invocation path bytes {}
      closing.map (·.outcome invocation.verbose world)

def call (setup : Setup) (surroundings : Surroundings) (argv : List String) : Except Halt Outcome :=
  match parse argv with
  | .error stop => .ok stop.outcome
  | .ok invocation => perform setup surroundings invocation

end Inyandiko.CommandLine
