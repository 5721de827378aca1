import Inyandiko.Proofs.Discipline.Machine
import Inyandiko.Proofs.Malformed

/-! The levels of machines agree when the ways in which they run blocks do. What declares names is
related only where its frame is at home; conditionals, loops and commands are related anywhere. -/
namespace Inyandiko

open Source

/-- The tokens that a statement evaluates itself. -/
def Statement.tokens : Statement → List Token
  | .loop (.count token) _ => [token]
  | .loop (.range _ first last) _ => [first, last]
  | .branch condition _ _ => [condition]
  | .giveBack expression => [expression]
  | .handOut (.declaration declared) | .declare declared => [declared.expression]
  | .handOut (.assignment assigned) | .assign assigned => [assigned.expression]
  | .command line => ((Call.parse? line).map (·.args)).getD []
  | .define .. | .takeIn _ | .handOut (.names _) => []

/-- The blocks of a statement. -/
def Statement.blocks : Statement → List (List Line)
  | .define _ body | .loop _ body => [body]
  | .branch _ body otherwise => [body, otherwise]
  | _ => []

variable {Code Code' : Type} {recode : Code → Code'} {setup : Setup}

/-- Runs a statement whose commands are run in a given way. -/
def Machine.statementBy (machine : Machine Code) (setup : Setup) (dispatch : Line → ExecOf Code Value)
    (frame : FrameId) (context : ContextId) : Statement → ExecOf Code (Option Value)
  | .command line => do
    let value ← dispatch line
    if value ≠ .null then
      Exec.modifyContext context fun run => { run with results := run.results.push value }
    return none
  | statement => machine.statement setup frame context statement

theorem Machine.statement_eq (machine : Machine Code) (setup : Setup) (frame : FrameId) (context : ContextId)
    (statement : Statement) :
    machine.statement setup frame context statement =
      machine.statementBy setup (machine.command setup · frame context) frame context statement := by
  cases statement <;> rfl

theorem Machine.token_level (setup : Setup) (depth : Nat) (token : Token) (frame : FrameId) (context : ContextId) :
    (level setup (depth + 1)).token token frame context =
      (level setup depth).tokenBy ((level setup depth).enter setup)
        ((level setup depth).command setup · frame context) token frame context :=
  rfl

/-- Runs the listeners of an event; functions are entered in a given way. -/
def Machine.fireBy (enter : Entry Code) (payload : Value) : List Listener → ExecOf Code (List Value)
  | [] => return []
  | listener :: listeners => do
    let value ← callBy enter listener.function (pure [payload]) listener.context
    return value :: (← fireBy enter payload listeners)

theorem Machine.fire_eq (machine : Machine Code) (setup : Setup) (payload : Value) (listeners : List Listener) :
    machine.fire setup payload listeners = fireBy (machine.enter setup) payload listeners := by
  induction listeners with
  | nil => rfl
  | cons listener listeners ih =>
    rw [fire,fireBy,ih]
    rfl

namespace Conduct

variable (D : Conduct recode setup) {Tok : Token → Prop} {Blk : Code → Prop}
  {machine : Machine Code} {machine' : Machine Code'} {context : ContextId} {home : Option FrameId}

section Loops

private theorem rounds {round : ExecOf Code (Option Value)} {round' : ExecOf Code' (Option Value)}
    (each : D.Rel context home round round') (count : Nat) :
    D.Rel context home (Loop.rounds round count) (Loop.rounds round' count) := by
  induction count with
  | zero => exact D.pure Carries.all_none
  | succ count ih =>
    refine D.bind each fun signal fine => ?_
    cases signal with
    | some value => exact D.pure fine
    | none => exact ih

theorem through {round : Number → ExecOf Code (Option Value)} {round' : Number → ExecOf Code' (Option Value)}
    (each : ∀ value, D.Rel context home (round value) (round' value))
    (upward : Bool) (last : Number) (bound : Nat) (value : Number) :
    D.Rel context home
      (Loop.through round upward last bound value) (Loop.through round' upward last bound value) := by
  induction bound generalizing value with
  | zero =>
    simp only [Loop.through]
    split
    · exact D.throw D.endless
    · exact D.pure Carries.all_none
  | succ bound ih =>
    simp only [Loop.through]
    split
    · refine D.bind (each value) fun signal fine => ?_
      cases signal with
      | some result => exact D.pure fine
      | none => exact ih _
    · exact D.pure Carries.all_none

private theorem halts_isFinite {n : Number} {crash : Crash} (failed : n.isFinite = .error crash) :
    D.Halts (.crash crash) := by
  cases n with
  | float x => cases failed
  | int n =>
    simp only [Number.isFinite,Number.toFloat] at failed
    split at failed
    · cases failed
      exact D.tooLarge
    · cases failed

private theorem halts_count {value : Value} {halt : Halt} (failed : Loop.count? value = .error halt) :
    D.Halts halt := by
  cases value with
  | number n =>
    simp only [Loop.count?] at failed
    split at failed
    · rename_i crash found
      cases failed
      exact D.halts_isFinite found
    · cases failed
    · split at failed <;> cases failed
  | _ => cases failed

private theorem halts_bound {value : Value} {halt : Halt} (failed : Loop.bound? value = .error halt) :
    D.Halts halt := by
  cases value with
  | number n =>
    simp only [Loop.bound?] at failed
    split at failed
    · rename_i crash found
      cases failed
      exact D.halts_isFinite found
    · cases failed
  | _ => cases failed

private theorem halts_bounds {first last : Value} {halt : Halt} (failed : Loop.bounds? first last = .error halt) :
    D.Halts halt := by
  unfold Loop.bounds? at failed
  split at failed
  case h_2 => cases failed
  rename_i first last
  cases start : Loop.bound? (.number first) with
  | error other =>
    rw [start] at failed
    cases failed
    exact D.halts_bound start
  | ok first =>
    rw [start] at failed
    cases first with
    | none => cases failed
    | some first =>
      cases stop : Loop.bound? (.number last) with
      | error other =>
        rw [stop] at failed
        cases failed
        exact D.halts_bound stop
      | ok last =>
        rw [stop] at failed
        cases last <;> cases failed

/-- A round of a loop over a range. -/
theorem rangeRound (agree : D.Blocks Tok Blk machine machine') {body : Code} (given : Blk body)
    (name : String) {frame : FrameId} (here : D.At frame) (value : Number) :
    D.Rel context home
      (do
        let inner ← Exec.childFrame frame
        Exec.onScopes (·.declare inner name (.number value) false)
        machine.block body inner context)
      (do
        let inner ← Exec.childFrame frame
        Exec.onScopes (·.declare inner name (.number value) false)
        machine'.block (recode body) inner context) :=
  D.child here fun _ inside => D.bind (D.declare inside name (D.fine_number value) false) fun _ _ =>
    agree.block given inside context

theorem loop (agree : D.Blocks Tok Blk machine machine') {header : LoopHeader} {lines : List Line}
    (tokens : ∀ token ∈ (Statement.loop header lines).tokens, Tok token) {body : Code} (given : Blk body)
    {frame : FrameId} (here : D.At frame) :
    D.Rel context home
      (machine.loop header body frame context) (machine'.loop header (recode body) frame context) := by
  cases header with
  | count token =>
    refine D.bind (agree.token (tokens token (by simp [Statement.tokens])) here context home) fun value _ => ?_
    refine D.bind (D.liftExcept (fun count _ => by cases count <;> simp)
      fun _ failed => D.halts_count failed) fun count _ => ?_
    cases count with
    | none => exact D.fail _ nofun
    | some count => exact D.rounds (D.child here fun inner inside => agree.block given inside context) count
  | range name first last =>
    refine D.bind (agree.token (tokens first (by simp [Statement.tokens])) here context home) fun start _ => ?_
    refine D.bind (agree.token (tokens last (by simp [Statement.tokens])) here context home) fun stop _ => ?_
    refine D.bind (D.liftExcept (fun bounds _ => by rcases bounds with _ | ⟨_, _⟩ <;> simp)
      fun _ failed => D.halts_bounds failed) fun bounds _ => ?_
    cases bounds with
    | none => exact D.fail _ nofun
    | some bounds => exact D.through (D.rangeRound agree given name here) _ _ _ _

end Loops

section Statements

theorem branch (agree : D.Blocks Tok Blk machine machine') {condition : Token} (tested : Tok condition)
    {body otherwise : Code} (given : Blk body) (other : Blk otherwise) {frame : FrameId} (here : D.At frame) :
    D.Rel context home
      (do
        let value ← machine.token condition frame context
        machine.block (if value.truthy then body else otherwise) (← Exec.childFrame frame) context)
      (do
        let value ← machine'.token condition frame context
        machine'.block (if value.truthy then recode body else recode otherwise)
          (← Exec.childFrame frame) context) := by
  refine D.bind (agree.token tested here context home) fun value _ => D.child here fun inner inside => ?_
  cases value.truthy with
  | true => exact agree.block given inside context
  | false => exact agree.block other inside context

private theorem declareValue (agree : D.Blocks Tok Blk machine machine') {declared : Declaration}
    (given : Tok declared.expression) {frame : FrameId} (here : D.At frame) :
    D.Rel context (some frame)
      (machine.declare declared frame context) (machine'.declare declared frame context) :=
  D.bind (agree.token given here context _) fun _ fine =>
    D.declare here declared.name (Carries.all_value.1 fine) declared.isConst

private theorem assignValue (agree : D.Blocks Tok Blk machine machine') {assigned : Assignment}
    (given : Tok assigned.expression) {frame : FrameId} (here : D.At frame) :
    D.Rel context (some frame)
      (machine.assign assigned frame context) (machine'.assign assigned frame context) :=
  D.bind (agree.token given here context _) fun _ fine =>
    D.assign here assigned.name (Carries.all_value.1 fine)

theorem loopStatement (agree : D.Blocks Tok Blk machine machine') {header : LoopHeader}
    {body : List Line} (tokens : ∀ token ∈ (Statement.loop header body).tokens, Tok token)
    (given : Blk (machine.code body)) {frame : FrameId} (here : D.At frame) :
    D.Rel context home
      (machine.statement setup frame context (.loop header body))
      (machine'.statement setup frame context (.loop header body)) := by
  simp only [Machine.statement,← agree.code]
  exact D.loop agree tokens given here

theorem branchStatement (agree : D.Blocks Tok Blk machine machine') {condition : Token}
    (tested : Tok condition) {body otherwise : List Line} (given : Blk (machine.code body))
    (other : Blk (machine.code otherwise)) {frame : FrameId} (here : D.At frame) :
    D.Rel context home
      (machine.statement setup frame context (.branch condition body otherwise))
      (machine'.statement setup frame context (.branch condition body otherwise)) := by
  have both : D.Rel context home _ _ := D.branch agree tested given other here
  simp only [agree.code,← apply_ite] at both
  exact both

private theorem resultOf {work : ExecOf Code Value} {work' : ExecOf Code' Value}
    (same : D.Rel context home work work') :
    D.Rel context home
      (do
        let value ← work
        if value ≠ .null then
          Exec.modifyContext context fun run => { run with results := run.results.push value }
        return (none : Option Value))
      (do
        let value ← work'
        if value ≠ .null then
          Exec.modifyContext context fun run => { run with results := run.results.push value }
        return none) := by
  refine D.bind same fun value fine => ?_
  by_cases result : value ≠ .null
  · simp only [if_pos result]
    exact D.bind (D.pushResult (Carries.all_value.1 fine)) fun _ _ => D.pure Carries.all_none
  · simp only [if_neg result]
    exact D.pure Carries.all_none

private theorem takeMembers {dependency : Value} (fine : D.Fine dependency) (source : String) {frame : FrameId}
    (here : D.At frame) (pairs : List (String × String)) :
    D.Rel context (some frame)
      (Machine.takeMembers dependency source frame pairs)
      (Machine.takeMembers dependency source frame pairs) := by
  induction pairs with
  | nil => exact D.pure Carries.all_unit
  | cons pair pairs ih =>
    refine D.bind (D.member fine pair.1) fun found held => ?_
    cases found with
    | none => exact D.fail _ nofun
    | some value =>
      exact D.bind (D.declare here pair.2 (Carries.all_value.1 (Carries.all_some.1 held)) true) fun _ _ => ih

private theorem importSource (name : String) :
    D.Rel context home (Machine.importSource name context) (Machine.importSource name context) := by
  refine D.context (fun _ _ _ => rfl) fun run known => ?_
  dsimp only [Context.recode]
  cases found : run.dependencies.get? name with
  | some value =>
    exact D.pure (Carries.all_value.2 (D.dependencies known value (Table.mem_values_of_get? found)))
  | none => exact D.fail _ nofun

private theorem takeIn (names : Import) {frame : FrameId} (here : D.At frame) :
    D.Rel context (some frame)
      (Machine.takeIn names frame context) (Machine.takeIn names frame context) := by
  cases names with
  | whole dependency name =>
    exact D.bind (D.importSource dependency) fun _ fine => D.declare here name (Carries.all_value.1 fine) true
  | members dependency pairs =>
    exact D.bind (D.importSource dependency) fun _ fine =>
      D.takeMembers (Carries.all_value.1 fine) dependency here pairs

private theorem handOutNames {frame : FrameId} (here : D.At frame) (pairs : List (String × String)) :
    D.Rel context (some frame)
      (Machine.handOutNames frame context pairs) (Machine.handOutNames frame context pairs) := by
  induction pairs with
  | nil => exact D.pure Carries.all_unit
  | cons pair pairs ih => exact D.exportBound pair.2 pair.1 here ih (D.fail _ nofun)

private theorem handOut (agree : D.Blocks Tok Blk machine machine') {names : Export}
    (given : ∀ token ∈ (Statement.handOut names).tokens, Tok token) {frame : FrameId} (here : D.At frame) :
    D.Rel context (some frame)
      (machine.handOut names frame context) (machine'.handOut names frame context) := by
  cases names with
  | declaration declared =>
    simp only [Machine.handOut,Machine.declare,bind_assoc]
    exact D.bind (agree.token (given _ (by simp [Statement.tokens])) here context _) fun _ fine =>
      D.exportDeclared here declared.name (Carries.all_value.1 fine) declared.isConst
  | assignment assigned =>
    simp only [Machine.handOut,Machine.assign,bind_assoc]
    exact D.bind (agree.token (given _ (by simp [Statement.tokens])) here context _) fun _ fine =>
      D.exportAssigned here assigned.name (Carries.all_value.1 fine)
  | names pairs => exact D.handOutNames here pairs

/-- Every statement respects a conduct that its commands respect; its own frame is at home. -/
theorem statementBy (agree : D.Blocks Tok Blk machine machine') {frame : FrameId} (here : D.At frame)
    {statement : Statement} (tokens : ∀ token ∈ statement.tokens, Tok token)
    (blocks : ∀ lines ∈ statement.blocks, Blk (machine.code lines)) {dispatch : Line → ExecOf Code Value}
    {dispatch' : Line → ExecOf Code' Value}
    (command : ∀ line, statement = .command line → D.Rel context (some frame) (dispatch line) (dispatch' line)) :
    D.Rel context (some frame)
      (machine.statementBy setup dispatch frame context statement)
      (machine'.statementBy setup dispatch' frame context statement) := by
  cases statement with
  | define header body =>
    simp only [Machine.statementBy,Machine.statement,← agree.code]
    exact D.bind (D.define header (agree.body (blocks body (by simp [Statement.blocks]))) here) fun _ _ =>
      D.pure Carries.all_none
  | loop header body => exact D.loopStatement agree tokens (blocks body (by simp [Statement.blocks])) here
  | branch condition body otherwise =>
    exact D.branchStatement agree (tokens condition (by simp [Statement.tokens]))
      (blocks body (by simp [Statement.blocks])) (blocks otherwise (by simp [Statement.blocks])) here
  | giveBack expression =>
    simp only [Machine.statementBy,Machine.statement]
    split
    · exact D.pure (Carries.all_some.2 (Carries.all_value.2 D.fine_null))
    · exact D.map (fun _ fine => Carries.all_some.2 fine)
        (agree.token (tokens expression (by simp [Statement.tokens])) here context _)
  | takeIn names => exact D.bind (D.takeIn names here) fun _ _ => D.pure Carries.all_none
  | handOut names => exact D.bind (D.handOut agree tokens here) fun _ _ => D.pure Carries.all_none
  | declare declared =>
    exact D.bind (D.declareValue agree (tokens _ (by simp [Statement.tokens])) here) fun _ _ =>
      D.pure Carries.all_none
  | assign assigned =>
    exact D.bind (D.assignValue agree (tokens _ (by simp [Statement.tokens])) here) fun _ _ =>
      D.pure Carries.all_none
  | command line => exact D.resultOf (command line rfl)

end Statements

/-- Machines that do related things with all tokens and blocks. -/
abbrev AgreeFully (D : Conduct recode setup) (machine : Machine Code) (machine' : Machine Code') : Prop :=
  D.Agree (fun _ => True) (fun _ => True) machine machine'

/-- The listeners of an event may belong to several contexts. -/
theorem fireBy {entry : Machine.Entry Code} {entry' : Machine.Entry Code'}
    (agree : D.Calls Tok machine machine' entry entry')
    (anywhere : ∀ {one other : ContextId} {work : ExecOf Code Value} {work' : ExecOf Code' Value},
      D.Rel one home work work' → D.Rel other home work work')
    {payload : Value} (fine : D.Fine payload) (listeners : List Listener) :
    D.Rel context home
      (Machine.fireBy entry payload listeners) (Machine.fireBy entry' payload listeners) := by
  induction listeners with
  | nil => exact D.pure (Carries.all_list.2 (List.forall_mem_nil _))
  | cons listener listeners ih =>
    have called : D.Rel listener.context home _ _ :=
      D.callBy agree listener.function (D.pure (Carries.all_list.2 fun arg member =>
        Carries.all_value.2 (List.mem_singleton.1 member ▸ fine)))
    refine D.bind (anywhere called) fun value held => D.bind ih fun values fines => D.pure ?_
    exact Carries.all_list.2 (List.forall_mem_cons.2 ⟨held, Carries.all_list.1 fines⟩)

theorem fire (agree : D.Agree Tok Blk machine machine')
    (anywhere : ∀ {one other : ContextId} {work : ExecOf Code Value} {work' : ExecOf Code' Value},
      D.Rel one home work work' → D.Rel other home work work')
    {payload : Value} (fine : D.Fine payload) (listeners : List Listener) :
    D.Rel context home
      (machine.fire setup payload listeners) (machine'.fire setup payload listeners) := by
  rw [Machine.fire_eq,Machine.fire_eq]
  exact D.fireBy agree.toCalls anywhere fine listeners

/-- Machines without room agree. -/
theorem agree_exhausted (counts : D.Counts) (bodies : ∀ code, D.Body code) {code : List Line → Code}
    {code' : List Line → Code'} (same : ∀ lines, recode (code lines) = code' lines) :
    D.AgreeFully (Machine.exhausted code) (Machine.exhausted code') where
  code := same
  body _ := bodies _
  block _ _ _ _ := D.throw D.tooDeep
  token _ _ _ _ _ := D.throw D.tooDeep
  enter {_} known {name _} found {_} fine _ _ :=
    D.enter counts.refused name (D.within known found) fine fun _ _ _ _ _ => counts.counted (D.throw D.tooDeep)
  run _ _ _ _ _ _ := D.throw D.tooDeep

theorem script (agree : D.Blocks Tok (fun _ => True) machine machine') (hosted : D.hosted = true) (source : String)
    {options : RunOptions} (fit : D.Fit options) :
    D.Rel context home (machine.script source options) (machine'.script source options) := by
  refine D.bind (D.log _ _ _) fun _ _ => D.session hosted fit fun root inner here => ?_
  rw [← agree.code]
  exact agree.block trivial here inner

/-- Machines of the next level agree if their blocks and tokens do. -/
theorem agree_next (counts : D.Counts) (bodies : ∀ code, D.Body code) (below : D.AgreeFully machine machine')
    {next : Machine Code} {next' : Machine Code'} (code : next.code = machine.code)
    (code' : next'.code = machine'.code) (run : next.run = machine.script) (run' : next'.run = machine'.script)
    (block : ∀ body {frame}, D.At frame → ∀ context,
      D.Rel context (some frame) (next.block body frame context) (next'.block (recode body) frame context))
    (token : ∀ token {frame}, D.At frame → ∀ context home,
      D.Rel context home (next.token token frame context) (next'.token token frame context)) :
    D.AgreeFully next next' where
  code := by simpa only [code,code'] using below.code
  body _ := bodies _
  block {body} _ {_} here context := block body here context
  token {text} _ {_} here context home := token text here context home
  enter {_} known {name function} found {_} fine context _ :=
    D.enter counts.refused name (D.within known found) fine fun _ _ _ _ here =>
      counts.counted (block function.body here context)
  run hosted source options fit context home := by
    rw [run,run']
    exact D.script below.toBlocks hosted source fit

end Conduct

namespace Discipline

variable (D : Discipline recode setup) {Tok : Token → Prop} {Blk : Code → Prop}
  {machine : Machine Code} {machine' : Machine Code'} {context : ContextId} {home : Option FrameId}

theorem commandLine (agree : D.Agree Tok Blk machine machine') (tells : D.Tells) {line : Line}
    (runs : D.Runs Tok line) {frame : FrameId} (here : D.At frame) :
    D.Rel context home
      (machine.statement setup frame context (.command line))
      (machine'.statement setup frame context (.command line)) :=
  D.resultOf (D.command agree tells runs (fun _ => D.placed nofun) here)

theorem statement (agree : D.Agree Tok Blk machine machine') (tells : D.Tells) {frame : FrameId}
    (here : D.At frame) {statement : Statement} (tokens : ∀ token ∈ statement.tokens, Tok token)
    (blocks : ∀ lines ∈ statement.blocks, Blk (machine.code lines))
    (command : ∀ line, statement = .command line → D.Runs Tok line) :
    D.Rel context (some frame)
      (machine.statement setup frame context statement)
      (machine'.statement setup frame context statement) := by
  rw [Machine.statement_eq,Machine.statement_eq]
  exact D.statementBy agree.toBlocks here tokens blocks fun line same =>
    D.command agree tells (command line same) (fun _ => D.placed nofun) here

theorem items {run : Statement → ExecOf Code (Option Value)} {run' : Statement → ExecOf Code' (Option Value)}
    {statements : List Statement.Item} (strict : ∀ item ∈ statements, Strict item.statement)
    (each : ∀ item ∈ statements, ∀ statement, item.statement = .ok statement →
      D.Rel context home (run statement) (run' statement)) :
    D.Rel context home (Machine.items run statements) (Machine.items run' statements) := by
  induction statements with
  | nil => exact D.pure Carries.all_none
  | cons item rest ih =>
    refine D.bind (D.located item.line ?_) fun signal fine => ?_
    · cases found : item.statement with
      | error fault =>
        have malformed := strict item List.mem_cons_self fault found
        refine D.throw (D.placed fun same => ?_)
        rw [same] at malformed
        cases malformed
      | ok statement => exact each item List.mem_cons_self statement found
    · cases signal with
      | some value => exact D.pure fine
      | none =>
        exact ih (fun other member => strict other (List.mem_cons_of_mem _ member))
          fun other member => each other (List.mem_cons_of_mem _ member)

/-- What is asked of a statement: machines agree on what it has inside, and if it is a command it can be run. -/
structure Covers (Tok : Token → Prop) (Blk : List Line → Prop) (statement : Statement) : Prop where
  tokens : ∀ token ∈ statement.tokens, Tok token
  blocks : ∀ lines ∈ statement.blocks, Blk lines
  command (line : Line) : statement = .command line → D.Runs Tok line

private theorem linesBlockOf (agree : D.Agree Tok Blk machine machine') (tells : D.Tells) {lines : List Line}
    (covers : ∀ item ∈ Statement.items lines, ∀ statement, item.statement = .ok statement →
      D.Covers Tok (fun lines => Blk (machine.code lines)) statement)
    {frame : FrameId} (here : D.At frame) :
    D.Rel context (some frame)
      (Machine.linesBlock setup machine lines frame context)
      (Machine.linesBlock setup machine' lines frame context) :=
  D.items (Statement.strict_items lines) fun item member statement found =>
    have covered := covers item member statement found
    D.statement agree tells here covered.tokens covered.blocks covered.command

theorem linesBlock (agree : D.AgreeFully machine machine') (tells : D.Tells)
    (online : setup.network = none → D.Online) (lines : List Line) {frame : FrameId} (here : D.At frame) :
    D.Rel context (some frame)
      (Machine.linesBlock setup machine lines frame context)
      (Machine.linesBlock setup machine' lines frame context) :=
  D.linesBlockOf agree tells
    (fun _ _ _ _ => ⟨fun _ _ => trivial, fun _ _ => trivial, fun _ _ => D.runs_fully online _⟩) here

/-- The machines of all levels agree if the ways in which they run blocks do. -/
theorem agree_levelOf (counts : D.Counts) (tells : D.Tells) (bodies : ∀ code, D.Body code)
    (online : setup.network = none → D.Online)
    {code : List Line → Code} {code' : List Line → Code'}
    {block : Machine Code → Code → FrameId → ContextId → ExecOf Code (Option Value)}
    {block' : Machine Code' → Code' → FrameId → ContextId → ExecOf Code' (Option Value)}
    (same : ∀ lines, recode (code lines) = code' lines)
    (respects : ∀ (machine : Machine Code) (machine' : Machine Code'), machine'.code = code' →
      D.AgreeFully machine machine' → ∀ body {frame}, D.At frame → ∀ context, D.Rel context (some frame)
        (block machine body frame context) (block' machine' (recode body) frame context))
    (depth : Nat) :
    D.AgreeFully (Machine.levelOf setup code block depth) (Machine.levelOf setup code' block' depth) := by
  induction depth with
  | zero => exact D.agree_exhausted counts bodies same
  | succ depth ih =>
    refine D.agree_next counts bodies ih rfl rfl rfl rfl ?_ ?_
    · exact respects _ _ (Machine.code_levelOf setup code' block' depth) ih
    · exact fun token _ here _ _ => D.evaluateToken ih tells (D.runs_fully online _) here

/-- A machine that runs lines agrees with itself. -/
theorem agree_level (D : Discipline (id : List Line → List Line) setup) (counts : D.Counts)
    (tells : D.Tells) (bodies : ∀ code, D.Body code) (online : setup.network = none → D.Online) (depth : Nat) :
    D.AgreeFully (Machine.level setup depth) (Machine.level setup depth) :=
  D.agree_levelOf counts tells bodies online (fun _ => rfl)
    (fun _ _ _ agree lines {_} here _ => D.linesBlock agree tells online lines here) depth

/-- Without commands of the host, a machine that runs lines agrees with itself on the tokens and blocks that cover
what they have inside, if the bodies of functions are among these blocks. -/
theorem agree_level_within (D : Discipline (id : List Line → List Line) setup) (unhosted : D.hosted = false)
    (counts : D.Counts) (tells : D.Tells) {Tok : Token → Prop} {Blk : List Line → Prop}
    (tokens : ∀ token, Tok token → D.Runs Tok (Text.trim token))
    (covers : ∀ lines, Blk lines → ∀ item ∈ Statement.items lines, ∀ statement, item.statement = .ok statement →
      D.Covers Tok Blk statement)
    (allowed : ∀ lines, Blk lines → D.Body lines)
    (bodies : ∀ run, D.Known run → ∀ name function, run.functions.get? name = some function → Blk function.body)
    (depth : Nat) : D.Agree Tok Blk (Machine.level setup depth) (Machine.level setup depth) := by
  have run (hosted : D.hosted = true) {P : Prop} : P := by
    rw [unhosted] at hosted
    cases hosted
  have code (depth : Nat) : (Machine.level setup depth).code = id :=
    Machine.code_levelOf setup id (Machine.linesBlock setup) depth
  induction depth with
  | zero =>
    exact {
      code := fun lines => rfl
      body := fun given => allowed _ given
      block := fun _ _ _ _ => D.throw D.tooDeep
      token := fun _ _ _ _ _ => D.throw D.tooDeep
      enter := fun {_} known {name _} found {_} fine _ _ => D.enter counts.refused name (D.within known found) fine
        fun _ _ _ _ _ => counts.counted (D.throw D.tooDeep)
      run := fun hosted => run hosted }
  | succ depth ih =>
    have block {lines : List Line} (given : Blk lines) {frame : FrameId} (here : D.At frame) (context : ContextId) :
        D.Rel context (some frame) ((Machine.level setup (depth + 1)).block lines frame context)
          ((Machine.level setup (depth + 1)).block lines frame context) := by
      refine D.linesBlockOf ih tells (fun item member statement found => ?_) here
      rw [code]
      exact covers lines given item member statement found
    exact {
      code := fun lines => rfl
      body := fun given => allowed _ given
      block := fun given _ here context => block given here context
      token := fun {token} given _ here _ _ => D.evaluateToken ih tells (tokens token given) here
      enter := fun {run} known {name function} found {_} fine context _ =>
        D.enter counts.refused name (D.within known found) fine fun _ _ _ _ here =>
          counts.counted (block (bodies run known name function found) here context)
      run := fun hosted => run hosted }

end Discipline

end Inyandiko
