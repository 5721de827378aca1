import Inyandiko.Proofs.InStep.Level
import Inyandiko.Proofs.Program.Reading

/-! The lines of a program do what the program says. Walking a program is in step with walking it in
another layout, and with running its lines, at every level of nesting; so a source text has the outcome
of the tree that it spells, whatever its layout. -/
namespace Inyandiko

open Text Source

section Statements

variable {Code Code' : Type} {recode : Code → Code'} {hosted : Bool} {context : ContextId} {frame : FrameId}
  {machine : Machine Code} {machine' : Machine Code'}

private theorem Simple.run_eq (machine : Machine Code) (setup : Setup) (frame : FrameId) (context : ContextId)
    (statement : Simple) :
    statement.run machine setup frame context = machine.statement setup frame context statement.statement := by
  cases statement with
  | declare isConst name expression =>
    simp only [Simple.run,Simple.statement,Machine.statement,Machine.declare,bind_assoc]
  | assign name expression =>
    simp only [Simple.run,Simple.statement,Machine.statement,Machine.assign,bind_assoc]
  | giveBack expression =>
    cases expression with
    | none => rfl
    | some expression => exact (if_neg expression.nonempty).symm
  | call name args =>
    obtain ⟨logical, _⟩ := (Simple.call name args).logical
    have trimmed : trim (callText name.text (args.map Fragment.text)) = callText name.text (args.map Fragment.text) :=
      logical.trimmed.trim_eq
    simp only [Simple.run,Simple.statement,Machine.statement,Machine.command]
    rw [parse?_callText name.identifier (arguments_fragments args) trimmed]
    rfl

private theorem Simple.inStep (agree : machine.Agree recode hosted machine') (setup : Setup) (statement : Simple) :
    InStep recode hosted context (some frame)
      (statement.run machine setup frame context) (statement.run machine' setup frame context) := by
  rw [Simple.run_eq,Simple.run_eq]
  exact .statement agree setup frame statement.statement

private theorem Header.inStep (agree : machine.Agree recode hosted machine') (header : Header) (body : Code) :
    InStep recode hosted context (some frame)
      (header.run machine frame context body) (header.run machine' frame context (recode body)) := by
  cases header with
  | count rounds => exact .loop agree (.count rounds.text) body frame
  | range name first last => exact .loop agree (.range name.string first.text last.text) body frame
  | define name params =>
    simp only [Header.run]
    split
    · exact .bind (.define _ body frame) fun _ => .pure none
    · exact .throw _

private theorem branchRun_inStep (agree : machine.Agree recode hosted machine') (condition : Fragment)
    (body otherwise : Code) :
    InStep recode hosted context (some frame) (branchRun machine frame context condition body otherwise)
      (branchRun machine' frame context condition (recode body) (recode otherwise)) :=
  .branch agree condition.text body otherwise frame

private theorem inOrder_inStep {home : Option FrameId} (line : Line) {work next : ExecOf Code (Option Value)}
    {work' next' : ExecOf Code' (Option Value)} (head : InStep recode hosted context home work work')
    (tail : InStep recode hosted context home next next') :
    InStep recode hosted context home (inOrder line work next) (inOrder line work' next') := by
  refine .bind (.located line head) fun signal => ?_
  cases signal with
  | some value => exact .pure _
  | none => exact tail

private theorem inOrder_fault (line : Line) (fault : Fault) (next next' : ExecOf Code (Option Value)) :
    inOrder line (throw (.fault fault)) next = inOrder line (throw (.fault fault)) next' := rfl

end Statements

namespace Program

variable {L M : Type}

private theorem inStep {Code Code' : Type} {recode : Code → Code'} {hosted : Bool} {machine : Machine Code}
    {machine' : Machine Code'} (agree : machine.Agree recode hosted machine') (setup : Setup)
    {code : Program L → Code} {code' : Program M → Code'} (f : L → M)
    (same : ∀ body, recode (code body) = code' (body.map f)) (program : Program L) (frame : FrameId)
    (context : ContextId) :
    InStep recode hosted context (some frame) (program.walk code setup machine frame context)
      ((program.map f).walk code' setup machine' frame context) := by
  induction program with
  | done => exact .pure none
  | simple statement next rest => exact inOrder_inStep _ (statement.inStep agree setup) rest
  | block header body layout next _ rest =>
    simp only [map,walk,← same]
    exact inOrder_inStep _ (header.inStep agree (code body)) rest
  | branch condition body layout next _ rest =>
    have empty : recode (code done) = code' done := same done
    simp only [map,walk,← same,← empty]
    exact inOrder_inStep _ (branchRun_inStep agree condition (code body) (code done)) rest
  | choice condition body layout otherwise layout' next _ _ rest =>
    simp only [map,walk,← same]
    exact inOrder_inStep _ (branchRun_inStep agree condition (code body) (code otherwise)) rest

private theorem map_id (program : Program L) : program.map id = program := by
  induction program with
  | done => rfl
  | simple statement next rest => rw [map,rest]
  | block header body layout next inner rest => rw [map,inner,rest,id]
  | branch condition body layout next inner rest => rw [map,inner,rest,id]
  | choice condition body layout otherwise layout' next inner other rest => rw [map,inner,other,rest,id,id]

/-- A walk that leaves blocks to a machine as lines does what the statements read from the lines of
the program do. -/
private theorem walk_lines (setup : Setup) {machine : Machine} (code : machine.code = id) (frame : FrameId)
    (context : ContextId) (program : Program Layout) :
    program.walk lines setup machine frame context =
      Machine.linesBlock setup machine program.lines frame context := by
  rw [Machine.linesBlock,items_lines]
  induction program with
  | done => rfl
  | simple statement next rest =>
    rw [walk,items,rest,Simple.run_eq]
    rfl
  | block header body layout next _ rest =>
    rw [walk,items,rest]
    cases header with
    | count rounds =>
      simp only [Header.statement,Machine.items,Machine.statement,code]
      rfl
    | range name first last =>
      simp only [Header.statement,Machine.items,Machine.statement,code]
      rfl
    | define name params =>
      simp only [Header.run,Header.statement]
      split
      · simp only [Machine.items,Machine.statement,code]
        rfl
      -- the items end here; the fault keeps the walk from what comes next
      · exact inOrder_fault _ _ _ _
  | branch condition body layout next _ rest =>
    rw [walk,items,rest]
    simp only [Machine.items,Machine.statement,code]
    rfl
  | choice condition body layout otherwise layout' next _ _ rest =>
    rw [walk,items,rest]
    simp only [Machine.items,Machine.statement,code]
    rfl

private theorem agree_lines (setup : Setup) (depth : Nat) :
    (Program.machine setup depth).Agree Body.lines true (Machine.level setup depth) := by
  refine Machine.agree_levelOf setup (fun _ => rfl) (fun machine machine' code agree body frame context => ?_) depth
  cases body with
  | written lines => exact .linesBlock agree setup lines frame
  | tree program =>
    -- the same layout on both sides: only what holds the bodies is different
    have same (body : Program Layout) : (Body.tree body).lines = (body.map id).lines := by
      rw [map_id]
      rfl
    have walked := program.inStep agree setup id same frame context
    rw [map_id,walk_lines setup code] at walked
    exact walked

private theorem agree_plain (setup : Setup) (depth : Nat) :
    (Program.machine setup depth : Machine (Body L)).Agree Body.plain true (Program.machine setup depth) := by
  refine Machine.agree_levelOf setup (fun _ => rfl) (fun machine machine' _ agree body frame context => ?_) depth
  cases body with
  | written lines => exact .linesBlock agree setup lines frame
  | tree program => exact program.inStep agree setup (fun _ => ()) (fun _ => rfl) frame context

end Program

/-- The source text of a program has the same outcome as a walk of the program without its layout: the
same record, or the same error with the same message. The worlds they leave are the same, too, but for
the code of functions. -/
theorem execute_source (setup : Setup) (program : Program Layout) (options : RunOptions) (world : World) :
    ∃ (outcome : Except Halt Record) (after : World (Body Layout)),
      execute setup program.source options world = (outcome, after.recode Body.lines) ∧
      Program.execute setup program.plain options
          ((world.logged s!"run started: {program.lines.length} logical lines").recode Body.written) =
        (outcome, after.recode Body.plain) := by
  have read : Source.lines program.source.toList = program.lines := by
    rw [Program.source,String.toList_ofList,lines_joinLines program.counted.logical]
  have lined : Mirrors Body.lines (Program.execute setup program options)
      (Machine.session options ((Machine.level setup Machine.outermost).block program.lines)) :=
    .session options fun root context =>
      ((Program.agree_lines setup Machine.outermost).block (.tree program) root context).mirrors
  have plain : Mirrors Body.plain (Program.execute setup program options)
      (Program.execute setup program.plain options) :=
    .session options fun root context =>
      ((Program.agree_plain setup Machine.outermost).block (.tree program) root context).mirrors
  let message := s!"run started: {program.lines.length} logical lines"
  -- functions that are there before the run stay lines
  let start : World (Body Layout) := (world.logged message).recode Body.written
  have lines : start.recode Body.lines = world.logged message :=
    (World.recode_recode _ _ _).trans (World.recode_id _)
  have bare : start.recode Body.plain = (world.logged message).recode Body.written := World.recode_recode _ _ _
  cases walked : Program.execute setup program options start with
  | mk outcome after =>
    have run := lined start
    have run' := plain start
    rw [walked,lines] at run
    rw [walked,bare] at run'
    refine ⟨outcome, after, ?_, run'⟩
    rw [execute_run,read]
    exact run

namespace Laid

/-- A function that returns from inside a conditional inside a loop, and a call of it. -/
def program : Program Layout :=
  .simple (.declare false { text := "seen".toList } { text := "null".toList }) <|
  .block (.define { text := "find".toList } [{ text := "n".toList }])
    (.block (.range { text := "i".toList } { text := "1".toList } { text := "n".toList })
      (.choice { text := "seen".toList }
        (.simple (.giveBack (some { text := "'a \x7d b'".toList })) .done) ⟨some 1, some 1⟩
        (.simple (.assign { text := "seen".toList } { text := "i".toList }) .done) ⟨some 1, none⟩ .done)
      ⟨some 0, none⟩ .done) {} <|
  .simple (.declare true { text := "found".toList } { text := "find(5)".toList }) .done

/-- The program as it is laid out. -/
def source : String :=
  "let seen = null\numukoro find(n) \x7b\nsubiramo(i, 1, n) \x7b\nniba (seen) \x7b\n" ++
  "garura 'a \x7d b' \x7d niba_atariyo \x7b\nseen = i \x7d\x7d\n\x7d\nconst found = find(5)"

end Laid

/-- The program is run to its end, from its text as from its tree. -/
theorem execute_source_laid :
    Laid.program.source = Laid.source ∧
      (execute {} Laid.source {} {}).1.toOption.map (fun record => record.vars.get? "found") =
        some (some (.text "a \x7d b")) ∧
      (execute {} Laid.source {} {}).1 =
        (Program.execute {} Laid.program.plain {}
          ((World.logged {} "run started: 8 logical lines").recode Body.written)).1 := by
  have spelled : Laid.program.source = Laid.source := by decide +kernel
  obtain ⟨outcome, after, run, walked⟩ := execute_source {} Laid.program {} {}
  rw [spelled] at run
  refine ⟨spelled, by decide +kernel, ?_⟩
  rw [run]
  exact (congrArg Prod.fst walked).symm

end Inyandiko
