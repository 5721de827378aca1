import Inyandiko.Proofs.Accord
import Inyandiko.Proofs.Expression
import Inyandiko.Proofs.Mirror
import Inyandiko.Proofs.Semicolon.Reading
import Inyandiko.Proofs.ValidationStop

/-! Runs of scripts that differ in semicolons. A machine that runs tidied lines echoes the one that runs
scripts: step by step it does the same, and where a run is stopped only the texts that are recorded differ.
So scripts that are the same when tidied have runs that cannot be told apart but for these texts. -/
namespace Inyandiko

open Text Source

/-- A halt without texts of statements. -/
def Halt.unquoted : Halt → Halt
  | .fault found => .fault found.unquoted
  | .invalid _ => .invalid ""
  | halt => halt

/-- Halts that differ in quoted texts only. -/
def Halt.Alike (one two : Halt) : Prop := two.unquoted = one.unquoted

private theorem Cause.unquoted_unquoted (cause : Cause) : cause.unquoted.unquoted = cause.unquoted := by
  cases cause <;> rfl

private theorem Cause.category_unquoted (cause : Cause) : cause.unquoted.category = cause.category := by
  cases cause <;> rfl

namespace Halt

private theorem class_unquoted (halt : Halt) : halt.unquoted.class = halt.class := by
  cases halt with
  | fault found => exact congrArg Class.fault found.cause.category_unquoted
  | _ => rfl

private theorem unquoted_locate (line : Line) (halt : Halt) :
    (Machine.locate line halt).unquoted = (Machine.locate [] halt.unquoted).unquoted := by
  cases halt with
  | fault found =>
    simp only [unquoted,Machine.locate,Fault.locate,Fault.unquoted,Cause.unquoted_unquoted,Option.map_some]
  | _ => rfl

private theorem Alike.locate {one two : Halt} (alike : one.Alike two) (line line' : Line) :
    (Machine.locate line one).Alike (Machine.locate line' two) := by
  rw [Alike,unquoted_locate,unquoted_locate line,alike]

end Halt

/-- A context that neither runs commands of the host nor tells hooks of anything. -/
structure Context.Plain (run : Context) : Prop where
  commands : run.commands = .empty
  hooks : run.hooks = {}

private theorem Context.Plain.no_handler {run : Context} (plain : run.Plain) {name handler : String}
    (found : run.commands.get? name = some handler) : False := by
  rw [plain.commands] at found
  cases found

private theorem Context.Plain.of_modify {context : ContextId} {world : World} (plain : (world.contextAt context).Plain)
    (change : Context → Context)
    (keeps : ∀ run, (change run).commands = run.commands ∧ (change run).hooks = run.hooks) :
    (World.contextAt { world with contexts := world.contexts.modify context change } context).Plain where
  commands := (World.view_modify (·.commands) world context context change fun run => (keeps run).1).trans
    plain.commands
  hooks := (World.view_modify (·.hooks) world context context change fun run => (keeps run).2).trans plain.hooks

private theorem World.modified_recode (world : World) (context : ContextId) (change change' : Context → Context)
    (same : ∀ run, change' (run.recode (List.map tidy)) = (change run).recode (List.map tidy)) :
    { world.recode (List.map tidy) with
      contexts := (world.recode (List.map tidy)).contexts.modify context change' } =
      World.recode (List.map tidy) { world with contexts := world.contexts.modify context change } := by
  rw [World.modify_recode _ world context same]
  rfl

/-- What a computation comes to in a world, and what another one comes to in the tidied world. -/
structure Echo {α : Type} (context : ContextId) (one two : Except Halt α × World) : Prop where
  outcome : Outcomes Halt.Alike Eq one.1 two.1
  world : two.2 = one.2.recode (List.map tidy)
  plain : (one.2.contextAt context).Plain

/-- A computation that does in the tidied world what another one does, in runs without commands of the
host and without hooks. -/
def Echoes {α : Type} (context : ContextId) (one two : Exec α) : Prop :=
  ∀ world : World, (world.contextAt context).Plain →
    Echo context (one world) (two (world.recode (List.map tidy)))

namespace Echoes

variable {α β : Type} {context : ContextId}

private theorem bind {first first' : Exec α} {next next' : α → Exec β} (head : Echoes context first first')
    (tail : ∀ value, Echoes context (next value) (next' value)) :
    Echoes context (first >>= next) (first' >>= next') := by
  intro world plain
  have echo := head world plain
  rw [Exec.bind_run,Exec.bind_run]
  generalize first world = one at echo ⊢
  generalize first' (world.recode (List.map tidy)) = two at echo ⊢
  obtain ⟨outcome, after⟩ := one
  obtain ⟨outcome', after'⟩ := two
  obtain ⟨related, rfl, kept⟩ := echo
  cases related with
  | ok same =>
    subst same
    exact tail _ after kept
  | error alike => exact ⟨.error alike, rfl, kept⟩

private theorem apart {work : Exec α} (apart : work.Apart fun _ => True) : Echoes context work work := by
  intro world plain
  have blind := apart.blind world (world.contexts.map (Context.recode (List.map tidy))) world.events
  have shape : world.recode (List.map tidy) =
      { world with contexts := world.contexts.map (Context.recode (List.map tidy)), events := world.events } := rfl
  rw [shape,blind]
  refine ⟨?_, ?_, ?_⟩
  · cases (work world).1 with
    | ok value => exact .ok rfl
    | error halt => exact .error rfl
  · simp only [World.recode,apart.contexts,apart.events]
  · rw [World.contextAt,apart.contexts]
    exact plain

private theorem throw {one two : Halt} (alike : one.Alike two) :
    Echoes context (MonadExcept.throw one : Exec α) (MonadExcept.throw two) :=
  fun _ plain => ⟨.error alike, rfl, plain⟩

private theorem look {next next' : Context → Exec α}
    (tail : ∀ run, run.Plain → Echoes context (next run) (next' (run.recode (List.map tidy)))) :
    Echoes context (Exec.context context >>= next) (Exec.context context >>= next') := by
  intro world plain
  rw [Exec.bind_run,Exec.bind_run,Exec.context_run,Exec.context_run,World.contextAt_recode]
  exact tail _ plain world plain

private theorem modify {change change' : Context → Context}
    (same : ∀ run, change' (run.recode (List.map tidy)) = (change run).recode (List.map tidy))
    (keeps : ∀ run, (change run).commands = run.commands ∧ (change run).hooks = run.hooks) :
    Echoes context (Exec.modifyContext context change) (Exec.modifyContext context change') := by
  intro world plain
  rw [Mirrors.modifyContext context same world]
  exact ⟨.ok rfl, rfl, plain.of_modify change keeps⟩

private theorem addExport (name source : String) (frame : FrameId) :
    Echoes context (Machine.addExport name source frame context) (Machine.addExport name source frame context) :=
  modify (fun _ => rfl) fun _ => ⟨rfl, rfl⟩

private theorem exportBound (name source : String) (frame : FrameId) {next next' other other' : Exec α}
    (tail : Echoes context next next') (failed : Echoes context other other') :
    Echoes context
      (do
        if (← Exec.scopes).binds frame source then
          Machine.addExport name source frame context
          next
        else other)
      (do
        if (← Exec.scopes).binds frame source then
          Machine.addExport name source frame context
          next'
        else other') := by
  refine bind (apart .scopes) fun scopes => ?_
  split
  · exact bind (addExport name source frame) fun _ => tail
  · exact failed

private theorem define (header : FunctionHeader) (body : List Line) (frame : FrameId) :
    Echoes context (Machine.define header body frame context)
      (Machine.define header (body.map tidy) frame context) := by
  refine bind (modify (fun run => ?_) fun _ => ⟨rfl, rfl⟩) fun _ => apart (.log _ _ _)
  simp only [Context.recode,Table.map_insert]
  rfl

private theorem counted {call call' : Exec α} (inner : Echoes context call call') :
    Echoes context (Machine.counted context call) (Machine.counted context call') := by
  intro world plain
  have echo := inner _ (plain.of_modify Machine.deeper fun _ => ⟨rfl, rfl⟩)
  rw [← World.modified_recode world context Machine.deeper Machine.deeper fun _ => rfl] at echo
  simp only [Machine.counted_run]
  refine ⟨echo.outcome, ?_, echo.plain.of_modify Machine.shallower fun _ => ⟨rfl, rfl⟩⟩
  rw [← World.modified_recode _ context Machine.shallower Machine.shallower fun _ => rfl,← echo.world]

private theorem located (line line' : Line) {work work' : Exec α} (inner : Echoes context work work') :
    Echoes context (Machine.located line work) (Machine.located line' work') := by
  intro world plain
  have echo := inner world plain
  rw [Machine.located_run,Machine.located_run]
  refine ⟨?_, echo.world, echo.plain⟩
  have related := echo.outcome
  generalize (work world).1 = one at related ⊢
  generalize (work' (world.recode (List.map tidy))).1 = two at related ⊢
  cases related with
  | ok same => exact .ok same
  | error alike => exact .error (alike.locate line line')

private theorem stopIfInvalid (value : Value) (line line' : Line) :
    Echoes context (Machine.stopIfInvalid value line context) (Machine.stopIfInvalid value line' context) := by
  intro world plain
  rw [Machine.stopIfInvalid_run,Machine.stopIfInvalid_run,World.contextAt_recode]
  refine ⟨?_, rfl, plain⟩
  have same : (!(world.recode (List.map tidy)).heap.isVoid value &&
      ((world.contextAt context).recode (List.map tidy)).stopOnInvalid) =
      (!world.heap.isVoid value && (world.contextAt context).stopOnInvalid) := rfl
  rw [same]
  by_cases stops : (!world.heap.isVoid value && (world.contextAt context).stopOnInvalid) = true
  · rw [if_pos stops,if_pos stops]
    exact .error rfl
  · rw [if_neg stops,if_neg stops]
    exact .ok rfl

private theorem notifyStart (name : Option String) (line line' : Line) :
    Echoes context (Machine.notifyStart name line context) (Machine.notifyStart name line' context) := by
  cases name with
  | none => exact apart (.pure ())
  | some name =>
    refine look fun run plain => ?_
    dsimp only [Context.recode]
    rw [plain.hooks]
    exact apart (.pure ())

private theorem notifyFinish (name : Option String) (line line' : Line) (value : Value) :
    Echoes context (Machine.notifyFinish name line value context)
      (Machine.notifyFinish name line' value context) := by
  cases name with
  | none => exact apart (.pure ())
  | some name =>
    refine bind (apart .heap) fun heap => look fun run plain => ?_
    dsimp only [Context.recode]
    rw [plain.hooks]
    exact apart (.pure ())

end Echoes

/-- Echoing is a discipline of runs without commands of the host. -/
def Discipline.echoing (setup : Setup) : Discipline (List.map tidy : List Line → List Line) setup where
  hosted := false
  Rel context _ _ _ := Echoes context
  Halts _ := True
  Alike heap heap' := heap = heap'
  Known run := run.Plain
  At _ := True
  On _ := True
  Fine _ := True
  Body _ := True
  Does _ := False
  Fit _ := False
  pure _ := .apart (.pure _)
  throw _ := .throw rfl
  bind head tail := .bind head fun value => tail value fun _ _ => trivial
  fault _ := trivial
  placed _ := trivial
  tooDeep := trivial
  endless := trivial
  tooLarge := trivial
  flat _ := trivial
  answers := @Heap.SameAnswers.of_eq
  closed _ _ _ _ _ _ _ := trivial
  heap tail := .bind (.apart .heap) fun heap => tail heap heap rfl
  scopes tail := .bind (.apart .scopes) fun scopes => tail scopes fun _ _ _ _ _ _ => trivial
  evaluate _ _ := .apart (.onHeap fun _ _ _ => trivial)
  hostText _ := .apart (.askHeap fun _ _ _ => trivial)
  displayText _ := .apart (.askHeap fun _ _ _ => trivial)
  method _ _ := .apart (.onHeap fun _ _ _ => trivial)
  member _ _ := .apart (.onHeap fun _ _ _ => trivial)
  call _ _ := .apart (.onHeap fun _ _ _ => trivial)
  context _ tail := .look tail
  dependencies _ _ _ := trivial
  facing _ _ _ := trivial
  within _ _ _ _ := trivial
  declare _ _ _ _ _ := .apart (.onScopes fun _ _ _ => trivial)
  assign _ _ _ _ := .apart (.onScopes fun _ _ _ => trivial)
  child _ _ _ tail := .bind (.apart (.childFrame _)) fun frame => tail frame trivial
  pushResult _ := .modify (fun _ => rfl) fun _ => ⟨rfl, rfl⟩
  exportBound name source _ _ _ _ _ _ _ _ tail failed := .exportBound name source _ tail failed
  exportDeclared _ name _ _ _ := .bind (.apart (.onScopes fun _ _ _ => trivial)) fun _ => .addExport name name _
  exportAssigned _ name _ _ := .bind (.apart (.onScopes fun _ _ _ => trivial)) fun _ => .addExport name name _
  define header body _ frame _ := .define header body frame
  log _ _ _ := .apart (.log _ _ _)
  write _ := .apart (.write _)
  surface _ := .apart (.surface _)
  onSurface _ _ step _ := .apart (.onSurface step fun _ _ _ => trivial)
  stopIfInvalid value line := .stopIfInvalid value line line
  located line _ _ inner := .located line line inner
  replaced _ _ _ _ := .apart (.onHeap fun _ _ _ => trivial)
  allocate _ _ _ := .apart (.onHeap fun _ _ _ => trivial)
  document _ _ := .apart (.onHeap fun _ _ _ => trivial)
  request _ made := .apart (.request made)
  unreachable _ := trivial
  timeout _ _ _ _ := trivial
  plain _ _ known := known.commands
  handler known _ _ found _ _ _ := known.no_handler found
  gives does := does.elim
  fails does := does.elim
  examine does := does.elim
  make does := does.elim
  visible does := does.elim
  hostAssign does := does.elim
  hostErase does := does.elim
  nested does := does.elim
  resumes does := does.elim
  session allowed := Bool.noConfusion allowed

private theorem Discipline.echoing_counts (setup : Setup) : (Discipline.echoing setup).Counts where
  refused := trivial
  counted inner := Echoes.counted inner

private theorem Discipline.echoing_tells (setup : Setup) : (Discipline.echoing setup).Tells where
  start name line := Echoes.notifyStart name line line
  finish name line value := Echoes.notifyFinish name line line value

/-- A host that leaves all families of commands in place. -/
structure Setup.Native (setup : Setup) : Prop where
  environment : setup.environment = none
  validation : setup.validation = none
  network : setup.network = none

/-- Runs the statements of a block of lines, tidied. -/
def Machine.tidyBlock (setup : Setup) (machine : Machine) (lines : List Line) (frame : FrameId)
    (context : ContextId) : Exec (Option Value) :=
  items (fun statement => machine.statement setup frame context statement.tidied) (Statement.items lines)

private theorem Machine.statement_tidied {machine : Machine} (code : machine.code = List.map tidy) (setup : Setup)
    (frame : FrameId) (context : ContextId) (statement : Statement) :
    machine.statement setup frame context statement.tidied =
      machine.statementBy setup (fun line => machine.command setup (tidy line) frame context) frame context
        statement := by
  have twice (lines : List Line) : (lines.map tidy).map tidy = lines.map tidy := by
    rw [List.map_map]
    exact List.map_congr_left fun line _ => tidy_tidy line
  cases statement with
  | branch condition body otherwise =>
    simp only [Statement.tidied,statementBy,Machine.statement,code,← apply_ite (List.map tidy),twice]
  | _ => simp only [Statement.tidied,statementBy,Machine.statement,code,twice]

namespace Echoes

variable {setup : Setup} {machine machine' : Machine} {context : ContextId}

private theorem command (native : setup.Native) (agree : (Discipline.echoing setup).AgreeFully machine machine')
    (line : Line) (frame : FrameId) :
    Echoes context (machine.command setup line frame context) (machine'.command setup (tidy line) frame context) := by
  have read : Call.parse? (tidy line) = Call.parse? line := (reads_tidy line).call.symm
  have families : (Discipline.echoing setup).Rel context none (Machine.byFamilies setup line frame context)
      (Machine.byFamilies setup (tidy line) frame context) := by
    refine (Discipline.echoing setup).byFamiliesOf read (fun family given => ?_) (fun own _ => own)
      (fun value => stopIfInvalid value line (tidy line)) trivial
    simp [Setup.Replaces,native.environment,native.validation,native.network] at given
  rw [Machine.command_eq,Machine.command_eq]
  unfold Machine.commandBy
  rw [read]
  refine bind (notifyStart _ line (tidy line)) fun _ => bind ?_ fun value =>
    bind (notifyFinish _ line (tidy line) value) fun _ => apart (.pure value)
  exact (Discipline.echoing setup).carryOutOf agree.toCalls (fun _ _ _ _ => trivial)
    (fun hosted => Bool.noConfusion hosted) trivial families fun _ => throw rfl

private theorem statement (native : setup.Native) (agree : (Discipline.echoing setup).AgreeFully machine machine')
    (code : machine'.code = List.map tidy) {one two : Statement} (same : two.tidied = one.tidied) (frame : FrameId) :
    Echoes context (machine.statement setup frame context one)
      (machine'.statement setup frame context two.tidied) := by
  rw [same,Machine.statement_eq,Machine.statement_tidied code]
  exact (Discipline.echoing setup).statementBy agree.toBlocks trivial (fun _ _ => trivial) (fun _ _ => trivial)
    fun line _ => command native agree line frame

private theorem items {run run' : Statement → Exec (Option Value)}
    (each : ∀ one two, two.tidied = one.tidied → Echoes context (run one) (run' two)) (count : Nat)
    (lines : List Line) :
    Echoes context (Machine.items run (Statement.itemsUpTo count lines))
      (Machine.items run' (Statement.itemsUpTo count (lines.map tidy))) := by
  induction count generalizing lines with
  | zero => exact apart (.pure none)
  | succ count ih =>
    cases lines with
    | nil => exact apart (.pure none)
    | cons line following =>
      simp only [List.map_cons,Statement.itemsUpTo,(reads_tidy line).filler]
      split
      · exact ih following
      · have reading := Readings.statement line following
        generalize Statement.read line following = one at reading ⊢
        generalize Statement.read (tidy line) (following.map tidy) = two at reading ⊢
        cases reading with
        | error alike =>
          refine bind (located line (tidy line) (throw ?_)) fun signal => ?_
          · exact congrArg Halt.fault alike
          · cases signal <;> exact apart (.pure _)
        | @ok one two related =>
          obtain ⟨statement, rest⟩ := one
          obtain ⟨statement', rest'⟩ := two
          obtain ⟨same, rfl⟩ := related
          refine bind (located line (tidy line) (each statement statement' same)) fun signal => ?_
          cases signal with
          | some value => exact apart (.pure _)
          | none => exact ih rest

private theorem block (native : setup.Native) (agree : (Discipline.echoing setup).AgreeFully machine machine')
    (code : machine'.code = List.map tidy) (lines : List Line) (frame : FrameId) :
    Echoes context (Machine.linesBlock setup machine lines frame context)
      (Machine.tidyBlock setup machine' (lines.map tidy) frame context) := by
  rw [Machine.linesBlock,Machine.tidyBlock,Statement.items,Statement.items,List.length_map]
  exact items (fun _ _ same => statement native agree code same frame) lines.length lines

end Echoes

/-- The machine that runs tidied lines echoes the one that runs scripts, at every level. -/
private theorem Machine.echoed_level {setup : Setup} (native : setup.Native) (depth : Nat) :
    (Discipline.echoing setup).AgreeFully (level setup depth)
      (levelOf setup (List.map tidy) (tidyBlock setup) depth) :=
  (Discipline.echoing setup).agree_levelOf (Discipline.echoing_counts setup) (Discipline.echoing_tells setup)
    (fun _ => trivial) id (fun _ => rfl)
    (fun _ _ code agree lines {frame} _ _ => Echoes.block native agree code lines frame) depth

/-- Ends of runs that differ only in the texts of statements: runs to the end, or up to a failed validation, with
the same record, or runs that are stopped by the same error. -/
inductive SameEnd : Except Halt Record → Except Halt Record → Prop
  | finished {one two : Record} (ok : two.ok = one.ok) (vars : two.vars = one.vars)
      (exports : two.exports = one.exports) (results : two.results = one.results) : SameEnd (.ok one) (.ok two)
  | stopped {one two : Halt} (kind : two.class = one.class) (alike : one.Alike two) :
      SameEnd (.error one) (.error two)

/-- Runs that differ only in the texts of statements that are recorded. -/
structure SameRun (context : ContextId) (one two : Except Halt Record × World) : Prop where
  ending : SameEnd one.1 two.1
  world : one.2.Alike context two.2

private theorem Halt.Alike.class_eq {one two : Halt} (alike : one.Alike two) : two.class = one.class := by
  rw [← class_unquoted,alike,class_unquoted]

private theorem Halt.invalid_of_class {halt : Halt} (same : halt.class = .invalid) : ∃ line, halt = .invalid line := by
  cases halt with
  | invalid line => exact ⟨line, rfl⟩
  | _ => cases same

private theorem Machine.conclude_stopped {halt : Halt} (other : halt.class ≠ .invalid) (root : FrameId)
    (context : ContextId)
    (world : World) : conclude {} root context (.error halt) world = (.error halt, world) := by
  cases halt with
  | invalid line => exact absurd rfl other
  | _ => rfl

private theorem World.alike_of_recode {one two : World} (same : two.recode (List.map tidy) = one.recode (List.map tidy))
    (context : ContextId) : one.Alike context two := by
  have runs := congrArg (World.contextAt · context) same
  simp only [World.contextAt_recode] at runs
  exact ⟨congrArg (·.heap) same, congrArg (·.scopes) same, congrArg (·.surfaces) same, congrArg (·.output) same,
    congrArg (·.requests) same, congrArg (·.events) same, congrArg (·.exports) runs, congrArg (·.results) runs⟩

private theorem World.Alike.logged {context : ContextId} {one two : World} (alike : one.Alike context two)
    (message message' : String) : (one.logged message).Alike context (two.logged message') :=
  ⟨alike.heap, alike.scopes, alike.surfaces, alike.output, alike.requests, alike.events, alike.exports, alike.results⟩

private theorem Echo.conclude {context : ContextId} {one two middle : Except Halt (Option Value) × World}
    (echo : Echo context one middle) (other : Echo context two middle) (root : FrameId) :
    SameRun context (Machine.conclude {} root context one.1 one.2)
      (Machine.conclude {} root context two.1 two.2) := by
  have worlds : two.2.recode (List.map tidy) = one.2.recode (List.map tidy) := other.world.symm.trans echo.world
  have alike := World.alike_of_recode worlds context
  have record : two.2.record root context none = one.2.record root context none := by
    rw [← World.record_recode (List.map tidy) two.2,worlds,World.record_recode]
  have finished (line line' : Option String) (ok : line'.isNone = line.isNone) :
      SameEnd (.ok (one.2.record root context line)) (.ok (two.2.record root context line')) :=
    .finished ok (congrArg (·.vars) record) (congrArg (·.exports) record) (congrArg (·.results) record)
  have left := echo.outcome
  have right := other.outcome
  obtain ⟨ending, world⟩ := one
  obtain ⟨ending', world'⟩ := two
  generalize middle.1 = between at left right
  cases left with
  | ok same =>
    subst same
    cases right with
    | ok same =>
      subst same
      rw [Machine.conclude_ok_run,Machine.conclude_ok_run]
      exact ⟨finished none none rfl, alike.logged _ _⟩
  | @error halt _ first =>
    cases right with
    | @error halt' _ second =>
      have same : halt.Alike halt' := second.symm.trans first
      by_cases invalid : halt.class = .invalid
      · obtain ⟨line, rfl⟩ := Halt.invalid_of_class invalid
        obtain ⟨line', rfl⟩ := Halt.invalid_of_class (same.class_eq.trans invalid)
        rw [Machine.conclude_invalid_run,Machine.conclude_invalid_run]
        exact ⟨finished (some line) (some line') rfl, alike.logged _ _⟩
      · rw [Machine.conclude_stopped invalid,Machine.conclude_stopped (by rwa [same.class_eq])]
        exact ⟨.stopped same.class_eq same, alike⟩

private theorem SameRun.session {setup : Setup} (native : setup.Native) {options : RunOptions}
    (commands : options.commands = .empty) (hooks : options.hooks = {}) {lines others : List Line}
    (same : others.map tidy = lines.map tidy) (depth : Nat) (world : World) :
    SameRun world.contexts.size (Machine.session options ((Machine.level setup depth).block lines) world)
      (Machine.session options ((Machine.level setup depth).block others) world) := by
  have plain : ((world.opened options).contextAt world.contexts.size).Plain := by
    rw [World.contextAt_opened,if_pos rfl]
    exact ⟨commands, hooks⟩
  have echo (lines : List Line) : Echo world.contexts.size
      ((Machine.level setup depth).block lines world.scopes.frames.size world.contexts.size (world.opened options))
      ((Machine.levelOf setup (List.map tidy) (Machine.tidyBlock setup) depth).block (lines.map tidy)
        world.scopes.frames.size world.contexts.size ((world.opened options).recode (List.map tidy))) :=
    (Machine.echoed_level native depth).block trivial trivial world.contexts.size (world.opened options) plain
  have other := echo others
  rw [same] at other
  rw [Machine.session_run,Machine.session_run,hooks]
  exact (echo lines).conclude other _

/-- Semicolons at the ends of simple statements mean nothing: a script some of whose simple lines are given
semicolons runs as before, but for the texts of statements that are recorded. -/
theorem trailing_semicolons_are_ignored (setup : Setup) (native : setup.Native) (options : RunOptions)
    (commands : options.commands = .empty) (hooks : options.hooks = {}) (source : String) (lines : List Line)
    (ended : Ended (Source.lines source.toList) lines) (world : World) :
    SameRun world.contexts.size (execute setup source options world)
      (execute setup (String.ofList (joinLines lines)) options world) := by
  have settled : ∀ line ∈ Source.lines source.toList, Settled line := fun _ member => settled_lines member
  have written : Source.lines (String.ofList (joinLines lines)).toList = lines := by
    rw [String.toList_ofList,lines_joinSettled (ended.settled settled)]
  rw [execute_run,execute_run,written]
  dsimp only
  rw [ended.length]
  exact SameRun.session native commands hooks (ended.tidied settled) Machine.outermost (world.logged _)

theorem trailing_semicolons_are_ignored_in_blocks :
    let source := "umukoro f(x) \x7b\n garura x + 1 // more\n\x7d\nlet y = f(2)\nf(y)"
    let lines := ["umukoro f(x) \x7b".toList, "garura x + 1 ;".toList, "\x7d".toList, "let y = f(2);".toList,
      "f(y)".toList]
    Ended (Source.lines source.toList) lines ∧
      SameRun 0 (execute {} source {} {}) (execute {} (String.ofList (joinLines lines)) {} {}) := by
  intro source lines
  have read : Source.lines source.toList =
      ["umukoro f(x) \x7b".toList, "garura x + 1".toList, "\x7d".toList, "let y = f(2)".toList, "f(y)".toList] := by
    decide +revert
  have ended : Ended (Source.lines source.toList) lines := by
    rw [read]
    exact .keep _ (.close (by decide) 1 (.keep _ (.close (by decide) 0 (.keep _ .nil))))
  exact ⟨ended, trailing_semicolons_are_ignored {} ⟨rfl, rfl, rfl⟩ {} rfl rfl source lines ended {}⟩

end Inyandiko
