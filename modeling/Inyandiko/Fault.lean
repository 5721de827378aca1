import Inyandiko.Crash
import Inyandiko.Json

/-! Faults of scripts. A fault has a cause and, once it is known, the text of the statement it
arose in; the cause determines category, message and hint. A run ends early by a fault, a crash,
a failed validation or exhaustion. -/
namespace Inyandiko

inductive Category
  | general
  | malformed
  | evaluation
  /-- A second declaration in one scope, or an assignment to a constant. -/
  | binding
  | operand
  /-- A command that is unknown, has the wrong arguments or lacks its target. -/
  | command
  deriving DecidableEq, Repr

def Category.code : Category → String
  | .malformed => "SYNTAX_ERROR"
  | .general | .evaluation => "RUNTIME_ERROR"
  | .binding => "BINDING_ERROR"
  | .operand => "TYPE_ERROR"
  | .command => "COMMAND_ERROR"

/-- Whether faults of a category arise from evaluation; commands, bindings and operands count. -/
def Category.isEvaluation : Category → Bool
  | .general | .malformed => false
  | _ => true

inductive Cause
  | expectedBlock (line : String)
  | unclosedBlock (line : String)
  | badDefinition (line : String)
  | badParameter (parameter function : String)
  | duplicateParameter (function : String)
  | badLoop (line : String)
  | badLoopVariable (name : String)
  | badLoopArguments (line : String)
  | badCondition (line : String)
  | badReturn (line : String)
  | badSpecifier (what token : String)
  | noSpecifiers (what : String)
  | badImport (line : String)
  | badExport (line : String)
  | textAfterBlock (text : String)
  | badElse (line : String)
  | strayElse
  | badDeclaration (line : String)
  | badStatement (line : String)
  | emptyToken
  | badText (token : String)
  | privateAttribute (name : String)
  | divisionByZero (token : String)
  | unsupportedOperator (operator : String)
  | missingOperand (operator expression : String)
  | unknownValue (token : String)
  | tooDeep
  | badCount (token : String)
  | badBounds (first last : String)
  | callDepth
  | redeclared (name : String)
  | reassigned (name : String)
  | notNumeric (token : String)
  | notComparable (token : String)
  | argumentCount (command : String) (expected received : Nat)
  | privateMember (name : String)
  | missingElement (selector : String)
  | surfaceRequired (command : String)
  | notTextElement (selector : String)
  | validationSurface
  | formSurface
  | missingForm (selector : String)
  | missingImport (dependency : String)
  | missingMember (member dependency : String)
  | unknownExport (name : String)
  | unknownCommand (name : String)
  | serviceArgument
  | missingDependency (name : String)
  | missingTarget (command : String)
  | uncallableTarget (command : String)
  | unknownFunction (name : String)
  | functionArguments (function : String) (expected received : Nat)
  deriving DecidableEq, Repr

namespace Cause

def category : Cause → Category
  | expectedBlock _ | unclosedBlock _ | badDefinition _ | badParameter .. | duplicateParameter _
  | badLoop _ | badLoopVariable _ | badLoopArguments _ | badCondition _ | badReturn _
  | badSpecifier .. | noSpecifiers _ | badImport _ | badExport _ | textAfterBlock _ | badElse _
  | strayElse | badDeclaration _ | badStatement _ => .malformed
  | emptyToken | badText _ | privateAttribute _ | divisionByZero _ | unsupportedOperator _
  | missingOperand .. | unknownValue _ | tooDeep | badCount _ | badBounds .. | callDepth => .evaluation
  | redeclared _ | reassigned _ => .binding
  | notNumeric _ | notComparable _ => .operand
  | argumentCount .. | privateMember _ | missingElement _ | surfaceRequired _ | notTextElement _
  | validationSurface | formSurface | missingForm _ | missingImport _ | missingMember ..
  | unknownExport _ | unknownCommand _ | serviceArgument | missingDependency _ | missingTarget _
  | uncallableTarget _ | unknownFunction _ | functionArguments .. => .command

def message : Cause → String
  | expectedBlock line => s!"Expected block opening at line: {line}"
  | unclosedBlock line => s!"Unclosed block near line: {line}"
  | badDefinition line => s!"Invalid function declaration: {line}"
  | badParameter parameter function => s!"Invalid function parameter \"{parameter}\" in {function}."
  | duplicateParameter function => s!"Duplicate parameter name in {function}."
  | badLoop line => s!"Invalid loop declaration: {line}"
  | badLoopVariable name => s!"Invalid loop variable: {name}"
  | badLoopArguments line => s!"subiramo expects 1 or 3 arguments: {line}"
  | badCondition line => s!"Invalid conditional declaration: {line}"
  | badReturn line => s!"Invalid return syntax: {line}"
  | badSpecifier what token => s!"Invalid {what} specifier: {token}"
  | noSpecifiers what => s!"Empty {what} list"
  | badImport line => s!"Invalid import syntax: {line}"
  | badExport line => s!"Invalid export syntax: {line}"
  | textAfterBlock text => s!"Unexpected text after closing brace: {text}"
  | badElse line => s!"Invalid else block: {line}"
  | strayElse => "'niba_atariyo' without matching 'niba'"
  | badDeclaration line => s!"Invalid declaration: {line}"
  | badStatement line => s!"Invalid syntax: {line}"
  | emptyToken => "Cannot parse an empty value token."
  | badText token => s!"Invalid string literal: {token}"
  | privateAttribute name => s!"Access to private attribute is not allowed: {name}"
  | divisionByZero token => s!"Division by zero: {token}"
  | unsupportedOperator operator => s!"Unsupported operator: {operator}"
  | missingOperand operator expression => s!"Missing operand for '{operator}' in: {expression}"
  | unknownValue token => s!"Unknown value or variable: {token}"
  | tooDeep => "Expression too deeply nested"
  | badCount token => s!"Loop count must be a non-negative integer: {token}"
  | badBounds first last => s!"Range loop bounds must be numeric: {first}, {last}"
  | callDepth => "Call depth limit exceeded"
  | redeclared name => s!"Variable already declared in this scope: {name}"
  | reassigned name => s!"Cannot reassign const variable: {name}"
  | notNumeric token => s!"Expected numeric value for expression token: {token}"
  | notComparable token => s!"Expected comparable value for token: {token}"
  | argumentCount command expected received =>
    s!"{command} expects {expected} argument(s), received {received}."
  | privateMember name => s!"Access to private attribute is not allowed: {name}"
  | missingElement selector => s!"Element not found: {selector}"
  | surfaceRequired command =>
    s!"{command} requires a UI surface; pass surface=Surface(...) to the run."
  | notTextElement selector => s!"Element does not expose a string value: {selector}"
  | validationSurface => "Validation commands require a UI surface."
  | formSurface => "fata(...) requires a UI surface."
  | missingForm selector => s!"Form not found: {selector}"
  | missingImport dependency => s!"Dependency not found for import: {dependency}"
  | missingMember member dependency =>
    s!"Imported member \"{member}\" was not found on dependency \"{dependency}\"."
  | unknownExport name => s!"Cannot export unknown variable: {name}"
  | unknownCommand name => s!"Unknown command or function: {name}"
  | serviceArgument => "injiza(serviceName) expects one argument."
  | missingDependency name => s!"Dependency not found: {name}"
  | missingTarget command => s!"{command} expects at least one argument."
  | uncallableTarget command =>
    s!"{command} could not call dependency target. " ++
      s!"Use {command}('dep', 'method', ...) or {command}(fn, ...)."
  | unknownFunction name => s!"Unknown function: {name}"
  | functionArguments function expected received =>
    s!"Function {function} expected {expected} argument(s), received {received}."

def hint : Cause → Option String
  | expectedBlock _ => some "Block headers must end with '\x7b'."
  | unclosedBlock _ => some "Add a matching '\x7d' for this block."
  | badDefinition _ => some "Write: umukoro name(a, b) \x7b"
  | badLoop _ => some "Write: subiramo(n) \x7b or subiramo(i, start, end) \x7b"
  | badCondition _ => some "Write: niba(condition) \x7b"
  | badImport _ => some "Write: import name from 'dep' or import \x7b a, b as c \x7d from 'dep'"
  | badElse _ => some "Write: niba_atariyo \x7b"
  | strayElse => some "Place 'niba_atariyo \x7b' right after the closing brace of a niba block."
  | badDeclaration _ => some "Write: let name = value"
  | _ => none

end Cause

/-- A fault: its cause, and the text of the statement it belongs to once that is known. -/
structure Fault where
  cause : Cause
  line : Option String := none
  deriving DecidableEq, Repr

def Fault.locate (fault : Fault) (line : String) : Fault :=
  { fault with line := some (fault.line.getD line) }

structure Report where
  category : Category
  message : String
  line : Option String := none
  hint : Option String := none
  deriving DecidableEq, Repr

def Fault.report (fault : Fault) : Report where
  category := fault.cause.category
  message := fault.cause.message
  line := fault.line
  hint := fault.cause.hint

/-- A report as a document: code and message, the statement if known, a hint unless empty. -/
def Report.toJson (report : Report) : Json :=
  let context := match report.line with
    | some line => [("context", Json.object [("line_text", .text line)])]
    | none => []
  let hint := match report.hint with
    | some hint => if hint = "" then [] else [("hint", Json.text hint)]
    | none => []
  .object ([("code", .text report.category.code), ("message", .text report.message)] ++ context ++ hint)

inductive Halt
  | fault (fault : Fault)
  /-- Something outside the script's language failed. -/
  | crash (crash : Crash)
  | invalid (line : String)
  /-- Blocks, calls or values are nested too deeply. -/
  | tooDeep
  /-- A loop makes no headway. -/
  | endless
  deriving DecidableEq, Repr

def Halt.ofCause (cause : Cause) : Halt := .fault ⟨cause, none⟩

end Inyandiko
