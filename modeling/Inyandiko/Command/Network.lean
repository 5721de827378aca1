import Inyandiko.Command.Environment
import Inyandiko.Value.Convert

/-! Requests to the network, and the forms they send. -/
namespace Inyandiko

open Text Source

def Crash.ofProblem (text : Chars) : Json.Problem → Halt
  | .malformed complaint index => .crash (.badDocument (complaint.locate text index))
  | .longNumeral digits => .crash (.longNumeral digits)
  | .tooDeep => .tooDeep

namespace Response

def document (response : Response) : HeapM Value := do
  let text := response.text.toList
  let heap ← get
  match Json.read heap.runtime.reading text with
  | .ok json =>
    let (value, heap) := heap.ofJson json
    set heap
    return value
  | .error problem => throw (Crash.ofProblem text problem)

/-- The body of an answer: the document if it is declared to be one or can be read as one, and
the text otherwise. -/
def body (response : Response) : HeapM Value := do
  let text := response.text.toList
  if occursIn "application/json".toList response.contentType.toList then response.document
  else
    let heap ← get
    match Json.read heap.runtime.reading text with
    | .ok json =>
      let (value, heap) := heap.ofJson json
      set heap
      return value
    | .error .tooDeep => throw .tooDeep
    | .error _ => return .text response.text

end Response

namespace Network

variable {Code : Type}

def names : List String := ["fata", "zana", "zana_json", "subiza", "subiza_json"]

def answer (setup : Setup) (url : String) : ExecOf Code Response :=
  match setup.replies.get? url with
  | some reply =>
    return { status := reply.status, text := reply.text, contentType := reply.contentType, url }
  | none => throw (.crash .unreachable)

def fetch (setup : Setup) (url : String) (timeout : Binary64) : ExecOf Code Response := do
  Exec.request (.fetch url timeout)
  answer setup url

/-- Sends a payload to an address: the fields of a form as such, anything else as a document. -/
def send (setup : Setup) (url : String) (payload : Value) (timeout : Binary64) : ExecOf Code Response := do
  let heap ← Exec.heap
  let (isForm, datum) := match heap.contents payload with
    | .form entries => (true, Datum.dict entries)
    | datum => (false, datum)
  Exec.request (.send url timeout isForm datum)
  answer setup url

def captureForm (call : Call) (surface : Option Nat) (frame : FrameId) : ExecOf Code Value := do
  let selector ← call.evaluateOne frame
  match surface with
  | none => Exec.fail .formSurface
  | some surface =>
    let name ← Exec.hostText selector
    let form ← liftExcept ((← Exec.surface surface).read name)
    match (← Exec.heap).entries? form with
    | some entries => Exec.onHeap (allocate (.form entries))
    | none => Exec.fail (.missingForm name)

def valueOf (asDocument : Bool) (response : Response) : ExecOf Code Value :=
  Exec.onHeap (if asDocument then response.body else allocate (.response response))

def perform (setup : Setup) (call : Call) (surface : Option Nat) (frame : FrameId) : ExecOf Code Value := do
  let heap ← Exec.heap
  let timeout ← liftExcept ((heap.toFloat setup.timeout).mapError Halt.crash)
  match call.name with
  | "fata" => captureForm call surface frame
  | "zana" | "zana_json" =>
    let url ← Exec.hostText (← call.evaluateOne frame)
    valueOf (call.name = "zana_json") (← fetch setup url timeout)
  | _ =>
    let (url, payload) ← call.evaluateTwo frame
    let url ← Exec.hostText url
    valueOf (call.name = "subiza_json") (← send setup url payload timeout)

def handle (setup : Setup) (line : Line) (surface : Option Nat) (frame : FrameId) :
    ExecOf Code (Option Value) :=
  match Call.parseNamed? line names with
  | some call => some <$> perform setup call surface frame
  | none => return none

end Network

end Inyandiko
