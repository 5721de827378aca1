import Inyandiko.Proofs.Mirror
import Inyandiko.Proofs.Nesting

/-! Programs as trees, the lines that they are written in, and a machine that walks the trees. The
lines of a program depend on where its closing braces and its alternatives stand; the machine does
not look at that. -/
namespace Inyandiko

open Text Source

/-- A name that is no word for statements. -/
structure Identifier where
  text : Chars
  identifier : isIdentifier text = true := by decide
  unreserved : keyword? text = none := by decide

/-- The name as a text. -/
def Identifier.string (name : Identifier) : String := String.ofList name.text

/-- An expression or an argument inside a statement. -/
structure Fragment where
  text : Chars
  nonempty : text ≠ [] := by decide
  trimmed : Trimmed text := by exact ⟨by decide, by decide⟩
  oneLine : ∀ c ∈ text, c ≠ '\n' ∧ c ≠ '\r' := by exact forall_of_all (by decide)
  steady : Steady text := by exact ⟨by decide, by decide⟩
  undivided : topLevelCommas 0 (spots text) = [] := by decide
  uncommented : ∀ spot ∈ spots text, spot.char = '/' → spot.rest.head? ≠ some '/' := by
    exact forall_of_all (by decide)
  unended : text.getLast? ≠ some ';' := by decide

/-- The statements of one line. -/
inductive Simple
  | declare (isConst : Bool) (name : Identifier) (expression : Fragment)
  | assign (name : Identifier) (expression : Fragment)
  | giveBack (expression : Option Fragment)
  | call (name : Identifier) (args : List Fragment)

/-- The headers of loops and functions. -/
inductive Header
  | count (rounds : Fragment)
  | range (name : Identifier) (first last : Fragment)
  | define (name : Identifier) (params : List Identifier)

/-- The statements of a program in their order, with a note on the layout of every block. -/
inductive Program (L : Type)
  | done
  | simple (statement : Simple) (next : Program L)
  | block (header : Header) (body : Program L) (layout : L) (next : Program L)
  | branch (condition : Fragment) (body : Program L) (layout : L) (next : Program L)
  | choice (condition : Fragment) (body : Program L) (layout : L) (otherwise : Program L) (layout' : L)
      (next : Program L)

/-- The layout of a block: the spaces before its closing brace if that stands after the text of the
last statement, and the spaces before an alternative if that begins on the line of the brace. -/
structure Layout where
  joined : Option Nat := none
  shared : Option Nat := none
  deriving DecidableEq, Repr

/-- Texts with a comma and a space between them. -/
def listed : List Chars → Chars
  | [] => []
  | [text] => text
  | text :: other :: texts => text ++ (',' :: ' ' :: listed (other :: texts))

/-- A name and arguments in parentheses. -/
def callText (name : Chars) (args : List Chars) : Chars := name ++ ('(' :: (listed args ++ [')']))

/-- The spelling of a keyword. -/
def Keyword.word (keyword : Keyword) : Chars := keyword.spelling.toList

/-- A name, an equals sign and an expression. -/
def assignText (name expression : Chars) : Chars := (name ++ [' ', '=', ' ']) ++ expression

/-- The keyword of declarations. -/
def bindingKeyword (isConst : Bool) : Keyword := if isConst then .constBinding else .letBinding

/-- The line of a statement. -/
def Simple.line : Simple → Line
  | .declare isConst name expression =>
    ((bindingKeyword isConst).word ++ [' ']) ++ assignText name.text expression.text
  | .assign name expression => assignText name.text expression.text
  | .giveBack none => Keyword.giveBack.word
  | .giveBack (some expression) => (Keyword.giveBack.word ++ [' ']) ++ expression.text
  | .call name args => callText name.text (args.map Fragment.text)

/-- The line of a header: words and arguments in parentheses, then an opening brace. -/
def headerLine (words : Chars) (args : List Chars) : Line := callText words args ++ [' ', '{']

/-- The line of a loop's or a function's header. -/
def Header.line : Header → Line
  | .count rounds => headerLine Keyword.loop.word [rounds.text]
  | .range name first last => headerLine Keyword.loop.word [name.text, first.text, last.text]
  | .define name params => headerLine (Keyword.define.word ++ (' ' :: name.text)) (params.map Identifier.text)

/-- The line that a conditional begins with. -/
def branchLine (condition : Fragment) : Line := headerLine (Keyword.branch.word ++ [' ']) [condition.text]

/-- The text that an alternative begins with. -/
def elseLine : Line := Keyword.otherwise.word ++ [' ', '{']

/-- Lines with a closing brace after them, and what follows the brace on its line. The brace can
stand after the text of the last line, if there is one. -/
def closed (layout : Layout) (trailing : Chars) : List Line → List Line
  | [] => ['}' :: trailing]
  | [line] =>
    match layout.joined with
    | some gap => [line ++ (spaces gap ++ ('}' :: trailing))]
    | none => [line, '}' :: trailing]
  | line :: other :: lines => line :: closed layout trailing (other :: lines)

/-- The lines of a conditional's block up to where its alternative begins. -/
def closedElse (layout : Layout) (lines : List Line) : List Line :=
  match layout.shared with
  | some gap => closed layout (spaces gap ++ elseLine) lines
  | none => closed layout [] lines ++ [elseLine]

namespace Program

/-- The lines of a program. -/
def lines : Program Layout → List Line
  | done => []
  | simple statement next => statement.line :: next.lines
  | block header body layout next => header.line :: (closed layout [] body.lines ++ next.lines)
  | branch condition body layout next => branchLine condition :: (closed layout [] body.lines ++ next.lines)
  | choice condition body layout otherwise layout' next =>
    branchLine condition ::
      (closedElse layout body.lines ++ (closed layout' [] otherwise.lines ++ next.lines))

/-- A program with other notes on its layout. -/
def map {L M : Type} (f : L → M) : Program L → Program M
  | done => done
  | simple statement next => simple statement (next.map f)
  | block header body layout next => block header (body.map f) (f layout) (next.map f)
  | branch condition body layout next => branch condition (body.map f) (f layout) (next.map f)
  | choice condition body layout otherwise layout' next =>
    choice condition (body.map f) (f layout) (otherwise.map f) (f layout') (next.map f)

/-- A program without layout. -/
def plain {L : Type} : Program L → Program Unit := map fun _ => ()

end Program

/-- Lines with line feeds between them. -/
def joinLines : List Line → Chars
  | [] => []
  | [line] => line
  | line :: other :: lines => line ++ ('\n' :: joinLines (other :: lines))

/-- The source text of a program. -/
def Program.source (program : Program Layout) : String := String.ofList (joinLines program.lines)

section Walk

variable {Code : Type} (machine : Machine Code) (setup : Setup) (frame : FrameId) (context : ContextId)

/-- Does what a statement says. -/
def Simple.run : Simple → ExecOf Code (Option Value)
  | .declare isConst name expression => do
    let value ← machine.token expression.text frame context
    Exec.onScopes (·.declare frame name.string value isConst)
    return none
  | .assign name expression => do
    let value ← machine.token expression.text frame context
    Exec.onScopes (·.assign frame name.string value)
    return none
  | .giveBack none => return some .null
  | .giveBack (some expression) => some <$> machine.token expression.text frame context
  | .call name args => do
    let line := callText name.text (args.map Fragment.text)
    let value ← machine.runCall setup (some ⟨name.string, args.map Fragment.text, line⟩) line frame context
    if value ≠ .null then
      Exec.modifyContext context fun run => { run with results := run.results.push value }
    return none

/-- Runs the loop or defines the function of a header with some body. Parameters have to be
different. -/
def Header.run (body : Code) : Header → ExecOf Code (Option Value)
  | .count rounds => machine.loop (.count rounds.text) body frame context
  | .range name first last => machine.loop (.range name.string first.text last.text) body frame context
  | .define name params =>
    if (params.map Identifier.text).Nodup then do
      Machine.define ⟨name.string, params.map Identifier.string⟩ body frame context
      return none
    else throw (.fault ⟨.duplicateParameter name.string, some (String.ofList (Header.define name params).line)⟩)

/-- Runs the block of a conditional, in a frame of its own. -/
def branchRun (condition : Fragment) (body otherwise : Code) : ExecOf Code (Option Value) := do
  let value ← machine.token condition.text frame context
  machine.block (if value.truthy then body else otherwise) (← Exec.childFrame frame) context

/-- Does the work of a statement with its line, and what comes after it unless it returns. -/
def inOrder (line : Line) (work next : ExecOf Code (Option Value)) : ExecOf Code (Option Value) := do
  match ← Machine.located line work with
  | some value => return some value
  | none => next

end Walk

/-- What functions and blocks hold: a program, or lines where scripts run other scripts. -/
inductive Body (L : Type)
  | written (lines : List Line)
  | tree (program : Program L)

namespace Body

/-- The lines of a body. -/
def lines : Body Layout → List Line
  | written lines => lines
  | tree program => program.lines

/-- A body without layout. -/
def plain {L : Type} : Body L → Body Unit
  | written lines => written lines
  | tree program => tree program.plain

end Body

variable {L : Type}

/-- Walks a program with the machine of the level below for what is inside its statements; the blocks
are left to it as code. -/
def Program.walk {Code : Type} (code : Program L → Code) (setup : Setup) (machine : Machine Code)
    (frame : FrameId) (context : ContextId) : Program L → ExecOf Code (Option Value)
  | done => return none
  | simple statement next =>
    inOrder statement.line (statement.run machine setup frame context) (next.walk code setup machine frame context)
  | block header body _ next =>
    inOrder header.line (header.run machine frame context (code body))
      (next.walk code setup machine frame context)
  | branch condition body _ next =>
    inOrder (branchLine condition) (branchRun machine frame context condition (code body) (code done))
      (next.walk code setup machine frame context)
  | choice condition body _ otherwise _ next =>
    inOrder (branchLine condition)
      (branchRun machine frame context condition (code body) (code otherwise))
      (next.walk code setup machine frame context)

/-- Runs a body. -/
def Body.run (setup : Setup) (machine : Machine (Body L)) (body : Body L) (frame : FrameId)
    (context : ContextId) : ExecOf (Body L) (Option Value) :=
  match body with
  | written lines => Machine.linesBlock setup machine lines frame context
  | tree program => program.walk tree setup machine frame context

/-- The machine of a level that walks programs. -/
def Program.machine (setup : Setup) (depth : Nat) : Machine (Body L) :=
  Machine.levelOf setup Body.written (Body.run setup) depth

/-- Runs a program from its tree. -/
def Program.execute (setup : Setup) (program : Program L) (options : RunOptions) : ExecOf (Body L) Record :=
  Machine.session options ((Program.machine setup Machine.outermost).block (.tree program))

end Inyandiko
