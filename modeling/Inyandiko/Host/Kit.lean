import Inyandiko.Host
import Inyandiko.Host.Template
import Inyandiko.Text.Upper

/-! A small host: a few objects, functions and commands that scripts can be given, and families of
commands that can stand in for the built-in ones. -/
namespace Inyandiko.Kit

/-- The objects of the kit, at fixed places of the heap. -/
def objects : Array Object :=
  #[.function "max" none, .function "double" none, .function "clock" none, .function "echo" none,
    .function "nothing" none, .function "later" none, .function "fail" none,
    .function "max" none, .function "min" none, .function "_hidden" none,
    .dict (.ofList [("max", .ref 7), ("min", .ref 8), ("pi", pi), ("_hidden", .ref 9)]),
    .function "max" none, .function "min" none,
    .host "mathobj"
      (.ofList [("_name", .text "mathobj"), ("max", .ref 11), ("min", .ref 12), ("pi", pi)]),
    .function "greet" (some 16), .list [.text "x", .text "y"],
    .host "greeter"
      (.ofList [("_name", .text "greeter"), ("greeting", .text "Muraho"), ("tags", .ref 15),
        ("_secret", .text "s3"), ("greet", .ref 14)]),
    .function "next" (some 18),
    .host "counter" (.ofList [("_name", .text "counter"), ("count", .int 0), ("next", .ref 17)])]
where
  pi : Value := .number (.float (.round false 13 4))

/-- Texts can be filled in as templates. -/
def lends (value : Value) (_ : Option Object) (name : String) : Option Loan :=
  match value with
  | .text _ => if name = "format" then some .member else none
  | _ => none

def heap : Heap where
  objects := objects
  runtime := { lends }

def places : List (String × Nat) :=
  [("max", 0), ("double", 1), ("clock", 2), ("echo", 3), ("nothing", 4), ("later", 5), ("fail", 6),
   ("math", 10), ("mathobj", 13), ("greeter", 16), ("counter", 18)]

def value? (name : String) : Option Value := (places.lookup name).map .ref

def numbersExpected : Halt := .crash (.hostRefusal "numbers expected")

def numbers (args : List Value) : Except Halt (List Number) :=
  if args.isEmpty then .error numbersExpected
  else args.mapM fun
    | .number n => .ok n
    | _ => .error numbersExpected

/-- The first number that no other one exceeds in the given direction. -/
def extreme (direction : Ordering) : List Number → Value
  | [] => .null
  | first :: rest =>
    .number (rest.foldl (fun best n => if n.compare? best = some direction then n else best) first)

def countUp (owner : Option Nat) : HeapM Value := do
  let heap ← get
  match owner with
  | none => return .null
  | some place =>
    match heap.objects[place]? with
    | some (.host name attributes) =>
      let n : Int := match attributes.get? "count" with
        | some (.number (.int n)) => n
        | _ => 0
      set (heap.set place (.host name (attributes.insert "count" (.int (n + 1)))))
      return .int (n + 1)
    | _ => return .null

def callFunction (name : String) (owner : Option Nat) (args : List Value) : HeapM Value := do
  match name, args with
  | "max", args => return extreme .gt (← numbers args)
  | "min", args => return extreme .lt (← numbers args)
  | "_hidden", _ => return .text "hidden"
  | "double", [.number n] =>
    match n.mul (.int 2) with
    | .ok doubled => return .number doubled
    | .error crash => throw (.crash crash)
  | "double", _ => throw numbersExpected
  | "clock", _ => return .int 1234
  | "echo", args | "later", args => allocate (.list args)
  | "nothing", _ => return .null
  | "greet", [.text name] => return .text ("Muraho, " ++ name)
  | "greet", _ => throw (.crash (.hostRefusal "greet expects one text"))
  | "next", _ => countUp owner
  | _, _ => throw (.crash (.hostFailure "boom"))

def call (callee : Callee) (args : List Value) : HeapM Value :=
  match callee with
  | .function name owner => callFunction name owner args
  | .member _ (.text template) => Template.format template args
  | .member name _ => throw (.crash (.missingAttribute name))

def product (args : List Value) : Action :=
  match numbers args with
  | .error halt => .fail halt
  | .ok (x :: y :: _) =>
    match x.mul y with
    | .ok n => .done (.number n)
    | .error crash => .fail (.crash crash)
  | .ok _ => .fail (.crash .indexOutOfRange)

def total (sum : Number) : List Value → Action
  | [] => .done (.number sum)
  | .number n :: args =>
    match sum.add n with
    | .ok sum => total sum args
    | .error crash => .fail (.crash crash)
  | _ => .fail numbersExpected

def texts (items : List String) (next : Value → Action) : Action :=
  .make (.list (items.map .text)) next

def look (context : CommandContext) : Action :=
  .make (.list context.args) fun args =>
    texts (context.dependencies.keys.mergeSort) fun names =>
      .make (.dict (.ofList [("command", .text context.command), ("line", .text context.line),
        ("args", args), ("deps", names)])) .done

def recordTable (record : Record) : Action :=
  .make (.dict record.vars) fun vars =>
    .make (.dict record.exports) fun exports =>
      .make (.list record.results) fun results =>
        let failed := match record.failedLine with
          | some line => [("failed_line", Value.text line)]
          | none => []
        .make (.dict (.ofList ([("ok", .bool record.ok)] ++ failed ++
          [("variables", vars), ("exports", exports), ("results", results)]))) .done

def overrides (heap : Heap) (table : Table Value) : Overrides :=
  let entries := fun key => (table.get? key).bind heap.entries?
  { vars := (entries "variables").getD .empty
    dependencies := (entries "dependencies").getD .empty
    commands := ((entries "commands").map handlerNames).getD .empty
    stop := match table.get? "stop" with
      | some (.bool stop) => some stop
      | _ => none
    elements := entries "elements" }

def nested : List Value → Action
  | [] => .fail (.crash .indexOutOfRange)
  | .text source :: args =>
    .examine fun heap =>
      let table := (args.head?.bind heap.entries?).getD .empty
      .run source (overrides heap table) recordTable
  | source :: _ =>
    .examine fun heap =>
      let kind := heap.kindName source
      .fail (.crash (.missingAttribute s!"'{kind}' object has no attribute 'replace'"))

def handler (name : String) (context : CommandContext) : Action :=
  match name, context.args with
  | "dubura", args => product args
  | "igiteranyo", args => total (.int 0) args
  | "reba", _ => look context
  | "seta", .text name :: value :: _ => .assign name value (.done .null)
  | "seta", key :: _ :: _ | "siba", (key@(.ref _)) :: _ =>
    .examine fun heap =>
      let kind := heap.kindName key
      .fail (.crash (.wrongType s!"unhashable type: '{kind}'"))
  | "siba", .text name :: _ => .erase name (.done .null)
  | "seta", _ | "siba", [] => .fail (.crash .indexOutOfRange)
  | "siba", _ => .fail (.crash (.missingKey ""))
  | "amazina", _ => .visible fun names => texts names.keys .done
  | "bara", _ => .visible fun names => .done (.int names.size)
  | "bomb", _ => .fail (.crash (.hostFailure "handler failed"))
  | "imbere", args => nested args
  | name, _ => .fail (.crash (.missingKey name))

/-- The families of the kit: one answers lines that begin with `vuga(` in capital letters, one finds every
emptiness check to have a problem. -/
def family (name : String) (line : Source.Line) (_ : Table Value) : HeapM (Option Value) :=
  if name = "stub" then
    return if Text.startsWith line "idafite_agaciro".toList then some (.bool true) else none
  else
    return if Text.startsWith line "vuga(".toList then some (.text (String.ofList (Text.inCapitals line))) else none

def family? (name : String) : Option Family :=
  if name = "shout" || name = "async_shout" || name = "stub" then some name else none

def host : Host := ⟨call, handler, family⟩

end Inyandiko.Kit
