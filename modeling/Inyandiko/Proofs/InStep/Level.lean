import Inyandiko.Proofs.Discipline.Level
import Inyandiko.Proofs.InStep

/-! Machines are made of steps. Being in step is a discipline, so two machines whose blocks, tokens and
scripts are in step are in step with all they do, and so are the machines of the next level. -/
namespace Inyandiko

open Source

variable {Code Code' : Type}

namespace InStep

private theorem exportBound {recode : Code → Code'} {hosted : Bool} {context : ContextId} (name source : String)
    (frame : FrameId) {α : Type} {next other : ExecOf Code α} {next' other' : ExecOf Code' α}
    (tail : InStep recode hosted context (some frame) next next')
    (failed : InStep recode hosted context (some frame) other other') :
    InStep recode hosted context (some frame)
      (do
        if (← Exec.scopes).binds frame source then
          Machine.addExport name source frame context
          next
        else other)
      (do
        if (← Exec.scopes).binds frame source then
          Machine.addExport name source frame context
          next'
        else other') := by
  refine .bind .scopes fun scopes => ?_
  split
  · exact .bind (.addExport name source frame) fun _ => tail
  · exact failed

private theorem hosted_of_command {hosted : Bool} {run : Context Code} (known : hosted = false → run.commands = .empty)
    {name handler : String} (found : run.commands.get? name = some handler) : hosted = true := by
  cases hosted with
  | true => rfl
  | false =>
    rw [known rfl] at found
    cases found

end InStep

/-- Being in step is a discipline; nothing is known of contexts but that they may have no commands. -/
def Discipline.inStep (recode : Code → Code') (hosted : Bool) (setup : Setup) : Discipline recode setup where
  hosted
  Rel context home _ _ := InStep recode hosted context home
  Halts _ := True
  Alike heap heap' := heap = heap'
  Known run := hosted = false → run.commands = .empty
  At _ := True
  On _ := True
  Fine _ := True
  Body _ := True
  Does _ := hosted = true
  Fit _ := True
  pure _ := .pure _
  throw _ := .throw _
  bind head tail := .bind head fun value => tail value fun _ _ => trivial
  fault _ := trivial
  placed _ := trivial
  tooDeep := trivial
  endless := trivial
  tooLarge := trivial
  flat _ := trivial
  answers := @Heap.SameAnswers.of_eq
  closed _ _ _ _ _ _ _ := trivial
  heap tail := .bind .heap fun heap => tail heap heap rfl
  scopes tail := .bind .scopes fun scopes => tail scopes fun _ _ _ _ _ _ => trivial
  evaluate _ _ := .onHeap _
  hostText _ := .askHeap _
  displayText _ := .askHeap _
  method _ _ := .onHeap _
  member _ _ := .onHeap _
  call _ _ := .onHeap _
  context blind tail := .context blind tail
  dependencies _ _ _ := trivial
  facing _ _ _ := trivial
  within _ _ _ _ := trivial
  declare _ name _ _ isConst := .declare _ name _ isConst
  assign _ name _ _ := .assign _ name _
  child _ _ _ tail := .child _ fun frame => tail frame trivial
  pushResult _ := .pushResult _
  exportBound name source _ _ _ _ _ _ _ _ tail failed := .exportBound name source _ tail failed
  exportDeclared _ name _ _ isConst := .bind (.declare _ name _ isConst) fun _ => .addExport name name _
  exportAssigned _ name _ _ := .bind (.assign _ name _) fun _ => .addExport name name _
  define header body _ _ _ := .define header body _
  log := .log
  write := .write
  surface _ := .surface _
  onSurface _ _ step _ := .onSurface _ step
  stopIfInvalid := .stopIfInvalid
  located line _ _ inner := .located line inner
  replaced _ _ _ _ := .onHeap _
  allocate _ _ _ := .onHeap _
  document _ _ := .onHeap _
  request _ made := .request made
  unreachable _ := trivial
  timeout _ _ _ _ := trivial
  plain unhosted _ known := known unhosted
  handler known _ _ found _ _ _ := InStep.hosted_of_command known found
  gives _ := trivial
  fails _ := trivial
  examine does _ _ alike := ⟨alike ▸ rfl, does⟩
  make does := ⟨.onHeap _, fun _ _ => does⟩
  visible does _ _ := does
  hostAssign does _ _ := ⟨.hostAssign does _ _ _, does⟩
  hostErase does _ _ := ⟨.hostErase does _ _, does⟩
  nested does frame _ _ _ _ _ tail := .bind (.nestedOptions does _ frame) fun options => tail options trivial
  resumes does _ _ := does
  session allowed options _ _ _ inner := .session allowed options fun root context => inner root context trivial

private theorem Discipline.inStep_tells (recode : Code → Code') (hosted : Bool) (setup : Setup) :
    (Discipline.inStep recode hosted setup).Tells where
  start := .notifyStart
  finish := .notifyFinish

/-- Machines over different code that do the same. -/
structure Machine.Agree (recode : Code → Code') (hosted : Bool) (machine : Machine Code)
    (machine' : Machine Code') : Prop where
  code (lines : List Line) : recode (machine.code lines) = machine'.code lines
  block (code : Code) (frame : FrameId) (context : ContextId) :
    InStep recode hosted context (some frame)
      (machine.block code frame context) (machine'.block (recode code) frame context)
  token (token : Token) (frame : FrameId) (context : ContextId) (home : Option FrameId) :
    InStep recode hosted context home (machine.token token frame context)
      (machine'.token token frame context)
  run (allowed : hosted = true) (source : String) (options : RunOptions) (context : ContextId)
    (home : Option FrameId) :
    InStep recode hosted context home (machine.run source options) (machine'.run source options)

variable {recode : Code → Code'} {hosted : Bool} {context : ContextId} {home : Option FrameId}
  {machine : Machine Code} {machine' : Machine Code'}

private theorem Machine.Agree.fully (agree : machine.Agree recode hosted machine') (setup : Setup) :
    (Discipline.inStep recode hosted setup).AgreeFully machine machine' where
  code := agree.code
  body _ := trivial
  block _ _ _ context := agree.block _ _ context
  token _ _ _ context home := agree.token _ _ context home
  enter {_} _ {name function} _ {_} fine context _ :=
    (Discipline.inStep recode hosted setup).enter trivial name trivial fine fun _ _ _ frame _ =>
      .counted (agree.block function.body frame context)
  run allowed source options _ context home := agree.run allowed source options context home

private theorem Machine.Agree.of_fully {setup : Setup}
    (agree : (Discipline.inStep recode hosted setup).AgreeFully machine machine') :
    machine.Agree recode hosted machine' where
  code := agree.code
  block _ _ context := agree.block trivial trivial context
  token _ _ context home := agree.token trivial trivial context home
  run allowed source _ context home := agree.run allowed source trivial context home

namespace InStep

theorem callFunction (agree : machine.Agree recode hosted machine') (setup : Setup) (name : String)
    {args : ExecOf Code (List Value)} {args' : ExecOf Code' (List Value)}
    (same : InStep recode hosted context home args args') :
    InStep recode hosted context home (machine.callFunction setup name args context)
      (machine'.callFunction setup name args' context) :=
  (Discipline.inStep recode hosted setup).callFunction (agree.fully setup) name same

theorem loop (agree : machine.Agree recode hosted machine') (header : LoopHeader) (body : Code)
    (frame : FrameId) :
    InStep recode hosted context home
      (machine.loop header body frame context) (machine'.loop header (recode body) frame context) := by
  have tokens : ∀ token ∈ (Statement.loop header []).tokens, True := fun _ _ => trivial
  -- loops do not depend on the setup, so any one will do
  exact (Discipline.inStep recode hosted {}).loop (agree.fully {}).toBlocks tokens trivial trivial

theorem branch (agree : machine.Agree recode hosted machine') (condition : Token)
    (body otherwise : Code) (frame : FrameId) :
    InStep recode hosted context home
      (do
        let value ← machine.token condition frame context
        machine.block (if value.truthy then body else otherwise) (← Exec.childFrame frame) context)
      (do
        let value ← machine'.token condition frame context
        machine'.block (if value.truthy then recode body else recode otherwise)
          (← Exec.childFrame frame) context) :=
  (Discipline.inStep recode hosted {}).branch (agree.fully {}).toBlocks trivial trivial trivial trivial

theorem loopStatement (agree : machine.Agree recode hosted machine') (setup : Setup)
    (header : LoopHeader) (body : List Line) (frame : FrameId) :
    InStep recode hosted context home
      (machine.statement setup frame context (.loop header body))
      (machine'.statement setup frame context (.loop header body)) :=
  (Discipline.inStep recode hosted setup).loopStatement (agree.fully setup).toBlocks (fun _ _ => trivial)
    trivial trivial

theorem branchStatement (agree : machine.Agree recode hosted machine') (setup : Setup)
    (condition : Token) (body otherwise : List Line) (frame : FrameId) :
    InStep recode hosted context home
      (machine.statement setup frame context (.branch condition body otherwise))
      (machine'.statement setup frame context (.branch condition body otherwise)) :=
  (Discipline.inStep recode hosted setup).branchStatement (agree.fully setup).toBlocks trivial trivial trivial
    trivial

theorem commandLine (agree : machine.Agree recode hosted machine') (setup : Setup) (line : Line)
    (frame : FrameId) :
    InStep recode hosted context home
      (machine.statement setup frame context (.command line))
      (machine'.statement setup frame context (.command line)) :=
  (Discipline.inStep recode hosted setup).commandLine (agree.fully setup)
    (Discipline.inStep_tells recode hosted setup) ((Discipline.inStep recode hosted setup).runs_fully id line) trivial

/-- Every statement is made of steps; its own frame is at home. -/
theorem statement (agree : machine.Agree recode hosted machine') (setup : Setup) (frame : FrameId)
    (statement : Statement) :
    InStep recode hosted context (some frame)
      (machine.statement setup frame context statement)
      (machine'.statement setup frame context statement) :=
  (Discipline.inStep recode hosted setup).statement (agree.fully setup)
    (Discipline.inStep_tells recode hosted setup) trivial (fun _ _ => trivial) (fun _ _ => trivial)
    fun line _ => (Discipline.inStep recode hosted setup).runs_fully id line

theorem linesBlock (agree : machine.Agree recode hosted machine') (setup : Setup) (lines : List Line)
    (frame : FrameId) :
    InStep recode hosted context (some frame)
      (Machine.linesBlock setup machine lines frame context)
      (Machine.linesBlock setup machine' lines frame context) :=
  (Discipline.inStep recode hosted setup).linesBlock (agree.fully setup)
    (Discipline.inStep_tells recode hosted setup) id lines trivial

end InStep

namespace Machine

/-- Machines that run blocks in step agree at every level. -/
theorem agree_levelOf (setup : Setup) {code : List Line → Code} {code' : List Line → Code'}
    {block : Machine Code → Code → FrameId → ContextId → ExecOf Code (Option Value)}
    {block' : Machine Code' → Code' → FrameId → ContextId → ExecOf Code' (Option Value)}
    (same : ∀ lines, recode (code lines) = code' lines)
    (inStep : ∀ (machine : Machine Code) (machine' : Machine Code'),
      machine'.code = code' → machine.Agree recode hosted machine' → ∀ body frame context,
        InStep recode hosted context (some frame)
          (block machine body frame context) (block' machine' (recode body) frame context))
    (depth : Nat) :
    (levelOf setup code block depth).Agree recode hosted (levelOf setup code' block' depth) :=
  .of_fully ((Discipline.inStep recode hosted setup).agree_levelOf ⟨trivial, .counted⟩
    (Discipline.inStep_tells recode hosted setup) (fun _ => trivial) id same
    (fun machine machine' plain agree body {frame} _ context =>
      inStep machine machine' plain (.of_fully agree) body frame context) depth)

/-- A machine that runs lines is in step with itself. -/
theorem agree_level (setup : Setup) (hosted : Bool) (depth : Nat) :
    (level setup depth).Agree id hosted (level setup depth) :=
  agree_levelOf setup (fun _ => rfl)
    (fun _ _ _ agree lines frame _ => InStep.linesBlock agree setup lines frame) depth

end Machine

end Inyandiko
