import Inyandiko.Proofs.Discipline.Level
import Inyandiko.Proofs.Likeness.Evaluation

/-! Calls under way. A machine that is told which calls are under way need not look at the counters of
contexts: it knows when a call is refused, and it can test at every statement, token and script that all
counters are as they should be. The test never fails, and the machine does what machines do; only that
the refusal of a call may go by another cause, so that it can be told from all other halts. -/
namespace Inyandiko

open Source

/-- How an account of calls is kept: the cause that refused calls are given, the halt for an account that
is wrong, and whether all calls belong to one context. -/
structure Audit where
  refusal : Cause := .callDepth
  alarm : Halt
  single : Bool := false

namespace World

/-- The calls under way, by their contexts, are those that the contexts count. No context has more of
them than the limit; if all belong to one context, there are no more of them at all. -/
structure Tallied (setup : Setup) (single : Bool) (calls : List ContextId) (world : World) : Prop where
  depths : ∀ id < world.contexts.size, (world.contextAt id).callDepth = calls.count id
  contexts : ∀ id ∈ calls, id < world.contexts.size
  budget : ∀ id ∈ calls, (calls.count id : Int) ≤ max 0 setup.maxCallDepth
  total : single = true → (calls.length : Int) ≤ max 0 setup.maxCallDepth

instance (setup : Setup) (single : Bool) (calls : List ContextId) (world : World) :
    Decidable (world.Tallied setup single calls) :=
  decidable_of_iff
    ((∀ id < world.contexts.size, (world.contextAt id).callDepth = calls.count id) ∧
      (∀ id ∈ calls, id < world.contexts.size) ∧ (∀ id ∈ calls, (calls.count id : Int) ≤ max 0 setup.maxCallDepth) ∧
      (single = true → (calls.length : Int) ≤ max 0 setup.maxCallDepth))
    ⟨fun ⟨depths, contexts, budget, total⟩ => ⟨depths, contexts, budget, total⟩,
      fun tallied => ⟨tallied.depths, tallied.contexts, tallied.budget, tallied.total⟩⟩

end World

namespace Machine

/-- Raises the alarm unless the account of calls is right. -/
def check (setup : Setup) (audit : Audit) (calls : List ContextId) : Exec Unit := do
  if (← get : World).Tallied setup audit.single calls then return else throw audit.alarm

/-- Tests the account of calls before and after a computation, however it ends. -/
def checked {α : Type} (setup : Setup) (audit : Audit) (calls : List ContextId) (work : Exec α) : Exec α := do
  check setup audit calls
  let outcome ← Exec.attempt work
  check setup audit calls
  liftExcept outcome

/-- Enters a function by the account of calls: there is room as long as the context has fewer calls under
way than the limit. The body is run by the machine that knows of this call. -/
def tallyEntry (setup : Setup) (audit : Audit) (machine : List ContextId → Machine) (calls : List ContextId) :
    Entry (List Line) := fun name function args context =>
  if args.length ≠ function.params.length then
    Exec.fail (.functionArguments name function.params.length args.length)
  else if setup.maxCallDepth ≤ calls.count context then Exec.fail audit.refusal
  else (machine (context :: calls)).runBody function args context

/-- The machine of a level that is told the calls under way. -/
def tallied (setup : Setup) (audit : Audit) : Nat → List ContextId → Machine
  | 0, _ => exhausted id
  | depth + 1, calls =>
    let machine := tallied setup audit depth calls
    let enter := tallyEntry setup audit (tallied setup audit depth) calls
    { code := machine.code
      block := fun lines frame context => checked setup audit calls
        (items (fun statement => checked setup audit calls
          (machine.statementBy setup (machine.commandBy setup enter · frame context) frame context statement))
          (Statement.items lines))
      token := fun token frame context => checked setup audit calls
        (machine.tokenBy enter (machine.commandBy setup enter · frame context) token frame context)
      run := fun source options => checked setup audit calls (machine.script source options) }

end Machine

/-- Whether a halt is the refusal of a call. -/
def Halt.isRefusal : Halt → Bool
  | .fault raised => raised.cause = .callDepth
  | _ => false

/-- A halt in which the refusal of a call goes by another cause. -/
def Halt.relabel (refusal : Cause) : Halt → Halt
  | .fault raised => .fault (if raised.cause = .callDepth then { raised with cause := refusal } else raised)
  | halt => halt

namespace Halt

private theorem relabel_callDepth (halt : Halt) : halt.relabel .callDepth = halt := by
  cases halt with
  | fault raised =>
    obtain ⟨cause, line⟩ := raised
    simp only [relabel]
    split
    · rename_i same
      rw [same]
    · rfl
  | _ => rfl

private theorem mapError_relabel_callDepth {α : Type} (outcome : Except Halt α) :
    outcome.mapError (relabel .callDepth) = outcome := by
  cases outcome with
  | ok value => rfl
  | error halt => exact congrArg Except.error (relabel_callDepth halt)

theorem relabel_fault {raised : Fault} (other : raised.cause ≠ .callDepth) (refusal : Cause) :
    (fault raised).relabel refusal = fault raised := by
  simp only [relabel,if_neg other]

private theorem relabel_of_not_refusal {halt : Halt} (other : halt.isRefusal = false) (refusal : Cause) :
    halt.relabel refusal = halt := by
  cases halt with
  | fault raised => exact relabel_fault (of_decide_eq_false other) refusal
  | _ => rfl

private theorem locate_relabel (line : Line) (refusal : Cause) (halt : Halt) :
    Machine.locate line (halt.relabel refusal) = (Machine.locate line halt).relabel refusal := by
  cases halt with
  | fault raised =>
    obtain ⟨cause, known⟩ := raised
    simp only [relabel,Machine.locate,Fault.locate]
    split <;> rfl
  | _ => rfl

end Halt

/-- A command of the host that does not itself fail as if a call were refused. -/
def Action.Modest : Action → Prop
  | .done _ => True
  | .fail halt => halt.isRefusal = false
  | .examine next => ∀ heap, (next heap).Modest
  | .make _ next => ∀ value, (next value).Modest
  | .visible next => ∀ names, (next names).Modest
  | .assign _ _ next | .erase _ next => next.Modest
  | .run _ _ next => ∀ record, (next record).Modest

/-- A host that does not itself fail as if a call were refused, in its functions, in the members that it lends, in
its families of commands and in its commands. -/
structure Host.Modest (host : Host) : Prop where
  call (callee : Callee) (args : List Value) (heap : Heap) (halt : Halt) :
    host.call callee args heap = .error halt → halt.isRefusal = false
  family (family : Family) (line : Line) (names : Table Value) (heap : Heap) (halt : Halt) :
    host.family family line names heap = .error halt → halt.isRefusal = false
  handler (name : String) (given : CommandContext) : (host.handler name given).Modest

/-- The likeness of a heap to itself, where no halt is the refusal of a call. -/
def Likeness.modest (host : Host) (refusal : Cause) (modest : refusal = .callDepth ∨ host.Modest) :
    Likeness host :=
  .ofEq host (fun halt => halt.relabel refusal = halt) (fun other => Halt.relabel_fault other refusal) rfl
    (fun _ => rfl) (by
    intro callee args heap halt failed
    rcases modest with rfl | modest
    · exact Halt.relabel_callDepth halt
    · exact Halt.relabel_of_not_refusal (modest.call callee args heap halt failed) refusal)

/-- A computation and its like in the machine that is told the calls under way: it ends the same way, and
the account is still right. -/
structure Tallies {α : Type} (setup : Setup) (audit : Audit) (calls : List ContextId) (world : World)
    (one two : Except Halt α × World) : Prop where
  same : two = (one.1.mapError (Halt.relabel audit.refusal), one.2)
  tallied : one.2.Tallied setup audit.single calls
  contexts : world.contexts.size ≤ one.2.contexts.size
  commands : ∀ id < world.contexts.size, (one.2.contextAt id).commands = (world.contextAt id).commands

/-- A world whose account is right for what is done in a context that is there. If all calls belong to
one context, it is this one, and it has no commands of the host that could open another one. -/
structure Accounted (setup : Setup) (audit : Audit) (calls : List ContextId) (context : ContextId)
    (world : World) : Prop where
  tallied : world.Tallied setup audit.single calls
  inside : context < world.contexts.size
  single : audit.single = true → (∀ id ∈ calls, id = context) ∧ (world.contextAt context).commands = .empty

/-- Computations that are the same as long as the account of calls is right. -/
def TalliedBy {α : Type} (setup : Setup) (audit : Audit) (calls : List ContextId) (context : ContextId)
    (one two : Exec α) : Prop :=
  ∀ world, Accounted setup audit calls context world → Tallies setup audit calls world (one world) (two world)

section Rules

variable {setup : Setup} {audit : Audit} {calls : List ContextId} {context : ContextId} {α β : Type}

private theorem Accounted.after {world after : World} (accounted : Accounted setup audit calls context world)
    (tallied : after.Tallied setup audit.single calls) (contexts : world.contexts.size ≤ after.contexts.size)
    (commands : ∀ id < world.contexts.size, (after.contextAt id).commands = (world.contextAt id).commands) :
    Accounted setup audit calls context after where
  tallied := tallied
  inside := Nat.lt_of_lt_of_le accounted.inside contexts
  single only := by
    rw [commands context accounted.inside]
    exact accounted.single only

/-- Where refusals keep their cause, the two are the same. -/
theorem Tallies.eq {world : World} {one two : Except Halt α × World}
    (done : Tallies setup audit calls world one two)
    (kept : audit.refusal = .callDepth) : two = one := by
  refine done.same.trans (Prod.ext ?_ rfl)
  rw [kept]
  exact Halt.mapError_relabel_callDepth one.1

theorem Tallies.bind {world : World} {first first' : Exec α} {next next' : α → Exec β}
    (begun : Tallies setup audit calls world (first world) (first' world))
    (tail : ∀ value after, Tallies setup audit calls world (.ok value, after) (first' world) →
      Tallies setup audit calls after (next value after) (next' value after)) :
    Tallies setup audit calls world ((first >>= next) world) ((first' >>= next') world) := by
  rcases result : first world with ⟨halt | value, after⟩
  · rw [result] at begun
    rw [Exec.bind_run,Exec.bind_run,result,begun.same]
    exact { begun with same := rfl }
  · rw [result] at begun
    have ended := tail value after begun
    rw [Exec.bind_run,Exec.bind_run,result,begun.same]
    exact {
      same := ended.same
      tallied := ended.tallied
      contexts := Nat.le_trans begun.contexts ended.contexts
      commands := fun id old =>
        (ended.commands id (Nat.lt_of_lt_of_le old begun.contexts)).trans (begun.commands id old) }

private theorem World.Tallied.counters {single : Bool} {world after : World}
    (tallied : world.Tallied setup single calls)
    (size : after.contexts.size = world.contexts.size)
    (depths : ∀ id, (after.contextAt id).callDepth = (world.contextAt id).callDepth) :
    after.Tallied setup single calls where
  depths id inside := by
    rw [depths]
    exact tallied.depths id (size ▸ inside)
  contexts id member := size ▸ tallied.contexts id member
  budget := tallied.budget
  total := tallied.total

private theorem Tallies.aside {work : Exec α} {world : World} (tallied : world.Tallied setup audit.single calls)
    (halts : ∀ halt, (work world).1 = .error halt → halt.relabel audit.refusal = halt)
    (size : (work world).2.contexts.size = world.contexts.size)
    (depths : ∀ id, ((work world).2.contextAt id).callDepth = (world.contextAt id).callDepth)
    (commands : ∀ id, ((work world).2.contextAt id).commands = (world.contextAt id).commands) :
    Tallies setup audit calls world (work world) (work world) := by
  refine ⟨?_, tallied.counters size depths, Nat.le_of_eq size.symm, fun id _ => commands id⟩
  rcases ended : work world with ⟨halt | value, after⟩
  · exact Prod.ext (congrArg Except.error (halts halt (by rw [ended])).symm) rfl
  · rfl

theorem Tallies.elsewhere {work : Exec α} {world : World} (tallied : world.Tallied setup audit.single calls)
    (halts : ∀ halt, (work world).1 = .error halt → halt.relabel audit.refusal = halt)
    (same : (work world).2.contexts = world.contexts) : Tallies setup audit calls world (work world) (work world) :=
  aside tallied halts (by rw [same]) (fun id => by simp only [World.contextAt,same])
    fun id => by simp only [World.contextAt,same]

namespace TalliedBy

private theorem elsewhere {work : Exec α}
    (halts : ∀ world halt, (work world).1 = .error halt → halt.relabel audit.refusal = halt)
    (same : ∀ world, (work world).2.contexts = world.contexts) : TalliedBy setup audit calls context work work :=
  fun world accounted => .elsewhere accounted.tallied (halts world) (same world)

private theorem modifyContext (id : ContextId) {change : Context → Context}
    (depths : ∀ run, (change run).callDepth = run.callDepth)
    (commands : ∀ run, (change run).commands = run.commands) :
    TalliedBy setup audit calls context (Exec.modifyContext id change) (Exec.modifyContext id change) :=
  fun world accounted => .aside accounted.tallied nofun Array.size_modify
    (fun other => World.view_modify (·.callDepth) world id other change depths)
    fun other => World.view_modify (·.commands) world id other change commands

theorem pure (value : α) : TalliedBy setup audit calls context (Pure.pure value) (Pure.pure value) :=
  elsewhere nofun fun _ => rfl

private theorem throw {halt : Halt} (kept : halt.relabel audit.refusal = halt) :
    TalliedBy setup audit calls context (MonadExcept.throw halt : Exec α) (MonadExcept.throw halt) :=
  elsewhere (fun _ _ raised => by cases raised; exact kept) fun _ => rfl

private theorem bind {first first' : Exec α} {next next' : α → Exec β}
    (head : TalliedBy setup audit calls context first first')
    (tail : ∀ value, TalliedBy setup audit calls context (next value) (next' value)) :
    TalliedBy setup audit calls context (first >>= next) (first' >>= next') := by
  intro world accounted
  refine (head world accounted).bind fun value after begun => tail value after ?_
  exact accounted.after begun.tallied begun.contexts begun.commands

private theorem anyHeap {step : HeapM α}
    (halts : ∀ heap halt, step heap = .error halt → halt.relabel audit.refusal = halt) :
    TalliedBy setup audit calls context (Exec.onHeap step) (Exec.onHeap step) := by
  refine elsewhere (fun world halt raised => ?_) fun world => ?_
  · rw [Exec.onHeap_run] at raised
    cases ended : step world.heap with
    | ok result =>
      rw [ended] at raised
      cases raised
    | error other =>
      rw [ended] at raised
      cases raised
      exact halts world.heap halt ended
  · rw [Exec.onHeap_run]
    split <;> rfl

private theorem onHeap [Carries α] {step : HeapM α} (modest : audit.refusal = .callDepth ∨ setup.host.Modest)
    (coupled : (Likeness.modest setup.host audit.refusal modest).Rel step step) :
    TalliedBy setup audit calls context (Exec.onHeap step) (Exec.onHeap step) := by
  refine anyHeap fun heap halt failed => ?_
  have same := (coupled heap heap rfl).1
  rw [failed] at same
  cases same with
  | error allowed => exact allowed

private theorem family (modest : audit.refusal = .callDepth ∨ setup.host.Modest) (family : Family) (line : Line)
    (names : Table Value) :
    TalliedBy setup audit calls context (Exec.onHeap (setup.host.family family line names))
      (Exec.onHeap (setup.host.family family line names)) := by
  refine anyHeap fun heap halt failed => ?_
  rcases modest with same | modest
  · rw [same,Halt.relabel_callDepth]
  · exact Halt.relabel_of_not_refusal (modest.family family line names heap halt failed) audit.refusal

private theorem askHeap {question : Heap → Except Halt α}
    (halts : ∀ heap halt, question heap = .error halt → halt.relabel audit.refusal = halt) :
    TalliedBy setup audit calls context (Exec.askHeap question) (Exec.askHeap question) := by
  refine elsewhere (fun world halt raised => ?_) fun world => ?_
  · rw [Exec.askHeap_run] at raised
    exact halts world.heap halt raised
  · rw [Exec.askHeap_run]

private theorem onScopes {change : Scopes → Except Halt Scopes}
    (halts : ∀ scopes halt, change scopes = .error halt → halt.relabel audit.refusal = halt) :
    TalliedBy setup audit calls context (Exec.onScopes change) (Exec.onScopes change) := by
  refine elsewhere (fun world halt raised => ?_) fun world => ?_
  · rw [Exec.onScopes_run] at raised
    cases ended : change world.scopes with
    | ok scopes =>
      rw [ended] at raised
      cases raised
    | error other =>
      rw [ended] at raised
      cases raised
      exact halts world.scopes halt ended
  · rw [Exec.onScopes_run]
    split <;> rfl

private theorem declare (modest : audit.refusal = .callDepth ∨ setup.host.Modest) (frame : FrameId) (name : String)
    (value : Value) (isConst : Bool) :
    TalliedBy setup audit calls context (Exec.onScopes (·.declare frame name value isConst))
      (Exec.onScopes (·.declare frame name value isConst)) :=
  onScopes fun _ _ failed => (Likeness.modest setup.host audit.refusal modest).halts_declare failed

private theorem assign (modest : audit.refusal = .callDepth ∨ setup.host.Modest) (frame : FrameId) (name : String)
    (value : Value) :
    TalliedBy setup audit calls context (Exec.onScopes (·.assign frame name value))
      (Exec.onScopes (·.assign frame name value)) :=
  onScopes fun _ _ failed => (Likeness.modest setup.host audit.refusal modest).halts_assign failed

private theorem onSurface (id : Nat) {change : Surface → Except Halt Surface}
    (halts : ∀ surface halt, change surface = .error halt → halt.relabel audit.refusal = halt) :
    TalliedBy setup audit calls context (Exec.onSurface id change) (Exec.onSurface id change) := by
  refine elsewhere (fun world halt raised => ?_) fun world => ?_
  · rw [Exec.onSurface_run] at raised
    cases ended : change (world.surfaces[id]?.getD {}) with
    | ok surface =>
      rw [ended] at raised
      cases raised
    | error other =>
      rw [ended] at raised
      cases raised
      exact halts _ halt ended
  · rw [Exec.onSurface_run]
    split <;> rfl

private theorem located (line : Line) {work work' : Exec α} (inner : TalliedBy setup audit calls context work work') :
    TalliedBy setup audit calls context (Machine.located line work) (Machine.located line work') := by
  intro world accounted
  have done := inner world accounted
  rw [Machine.located_run,Machine.located_run,done.same]
  refine { done with same := ?_ }
  cases (work world).1 with
  | ok value => rfl
  | error halt => exact Prod.ext (congrArg Except.error (Halt.locate_relabel _ _ _)) rfl

private theorem conclude {hooks : Hooks} (hookless : audit.refusal = .callDepth ∨ hooks.error = none) (root : FrameId)
    (inner : ContextId) (outcome : Except Halt (Option Value)) (world : World) :
    Machine.conclude hooks root inner (outcome.mapError (Halt.relabel audit.refusal)) world =
      ((Machine.conclude hooks root inner outcome world).1.mapError (Halt.relabel audit.refusal),
        (Machine.conclude hooks root inner outcome world).2) := by
  rcases hookless with same | hookless
  · refine Prod.ext ?_ ?_ <;> simp only [same,Halt.mapError_relabel_callDepth]
  · obtain ⟨start, finish, error⟩ := hooks
    cases hookless
    rcases outcome with halt | signal
    · cases halt <;> rfl
    · rfl

theorem session {options : RunOptions} (hookless : audit.refusal = .callDepth ∨ options.hooks.error = none)
    (plain : audit.single = true → calls = [] ∧ options.commands = .empty)
    {work work' : FrameId → ContextId → Exec (Option Value)}
    (inner : ∀ root context, TalliedBy setup audit calls context (work root context) (work' root context))
    {world : World} (tallied : world.Tallied setup audit.single calls) :
    Tallies setup audit calls world (Machine.session options work world) (Machine.session options work' world) := by
  have size : (world.opened options).contexts.size = world.contexts.size + 1 := by simp [World.opened]
  have begun : Accounted setup audit calls world.contexts.size (world.opened options) := by
    refine ⟨⟨fun id inside => ?_, fun id member => ?_, tallied.budget, tallied.total⟩, ?_, fun only => ⟨?_, ?_⟩⟩
    · rw [World.contextAt_opened]
      split
      · -- the new context is not among those with calls under way
        rename_i new
        have absent : id ∉ calls := fun member => Nat.lt_irrefl _ (new ▸ tallied.contexts id member)
        rw [List.count_eq_zero_of_not_mem absent]
        rfl
      · rename_i old
        rw [size] at inside
        exact tallied.depths id (Nat.lt_of_le_of_ne (Nat.le_of_lt_succ inside) old)
    · rw [size]
      exact Nat.lt_succ_of_lt (tallied.contexts id member)
    · rw [size]
      exact Nat.lt_succ_self _
    · rw [(plain only).1]
      exact List.forall_mem_nil _
    · rw [World.contextAt_opened,if_pos rfl]
      exact (plain only).2
  have done := inner world.scopes.frames.size world.contexts.size (world.opened options) begun
  rw [Machine.session_run,Machine.session_run,done.same]
  generalize work world.scopes.frames.size world.contexts.size (world.opened options) = ending at done
  obtain ⟨log, events, left⟩ := Machine.conclude_world options.hooks world.scopes.frames.size world.contexts.size
    ending.1 ending.2
  refine ⟨conclude hookless _ _ ending.1 ending.2, ?_, ?_, fun id old => ?_⟩
  · rw [left]
    exact done.tallied.counters rfl fun _ => rfl
  · rw [left]
    have grown := done.contexts
    rw [size] at grown
    exact Nat.le_trans (Nat.le_succ _) grown
  · rw [left]
    refine (done.commands id (by omega)).trans ?_
    rw [World.contextAt_opened,if_neg (Nat.ne_of_lt old)]

end TalliedBy

private theorem World.contextAt_modify (world : World) (id : ContextId) (change : Context → Context) {other : ContextId}
    (inside : other < world.contexts.size) :
    contextAt { world with contexts := world.contexts.modify id change } other =
      if id = other then change (world.contextAt other) else world.contextAt other := by
  simp only [contextAt,Array.getElem?_modify,Array.getElem?_eq_getElem inside]
  split <;> rfl

private theorem Accounted.deeper {world : World} (accounted : Accounted setup audit calls context world)
    (room : ¬setup.maxCallDepth ≤ calls.count context) :
    Accounted setup audit (context :: calls) context
      { world with contexts := world.contexts.modify context Machine.deeper } := by
  have tallied := accounted.tallied
  have size : (world.contexts.modify context Machine.deeper).size = world.contexts.size := Array.size_modify
  refine ⟨⟨fun id inside => ?_, fun id member => ?_, fun id member => ?_, fun only => ?_⟩, ?_, fun only => ⟨?_, ?_⟩⟩
  · have old : id < world.contexts.size := size ▸ inside
    rw [World.contextAt_modify world context _ old,List.count_cons]
    by_cases same : context = id
    · simp only [if_pos same,beq_iff_eq.2 same,Machine.deeper,tallied.depths id old,if_true]
    · simp only [if_neg same,beq_eq_false_iff_ne.2 same,tallied.depths id old]
      rfl
  · rw [size]
    rcases List.mem_cons.1 member with rfl | member
    · exact accounted.inside
    · exact tallied.contexts id member
  · rw [List.count_cons]
    by_cases same : context = id
    · subst same
      simp only [beq_self_eq_true,if_true]
      omega
    · have called := tallied.budget id ((List.mem_cons.1 member).resolve_left (Ne.symm same))
      simpa only [beq_eq_false_iff_ne.2 same,Bool.false_eq_true,if_false,Nat.add_zero] using called
  · -- all calls belong to the context at hand, so they are as many as its own
    have own : calls.count context = calls.length :=
      List.count_eq_length.2 fun id member => ((accounted.single only).1 id member).symm
    rw [own] at room
    rw [List.length_cons]
    omega
  · rw [size]
    exact accounted.inside
  · exact List.forall_mem_cons.2 ⟨rfl, (accounted.single only).1⟩
  · rw [World.contextAt_modify world context _ accounted.inside,if_pos rfl]
    exact (accounted.single only).2

private theorem World.Tallied.shallower {single : Bool} {world : World}
    (tallied : world.Tallied setup single (context :: calls)) :
    World.Tallied setup single calls
      { world with contexts := world.contexts.modify context Machine.shallower } := by
  have size : (world.contexts.modify context Machine.shallower).size = world.contexts.size := Array.size_modify
  refine ⟨fun id inside => ?_, fun id member => ?_, fun id member => ?_, fun only => ?_⟩
  · have old : id < world.contexts.size := size ▸ inside
    have counted := tallied.depths id old
    rw [List.count_cons] at counted
    rw [World.contextAt_modify world context _ old]
    by_cases same : context = id
    · simp only [beq_iff_eq.2 same,if_true] at counted
      simp only [if_pos same,Machine.shallower,counted]
      rfl
    · simp only [beq_eq_false_iff_ne.2 same] at counted
      rw [if_neg same,counted]
      rfl
  · rw [size]
    exact tallied.contexts id (List.mem_cons_of_mem _ member)
  · have called := tallied.budget id (List.mem_cons_of_mem _ member)
    rw [List.count_cons] at called
    omega
  · have all := tallied.total only
    rw [List.length_cons] at all
    omega

/-- A call under way is counted by its context, as the machine that runs its body is told. -/
private theorem TalliedBy.counted (room : ¬setup.maxCallDepth ≤ calls.count context) {work work' : Exec α}
    (inner : TalliedBy setup audit (context :: calls) context work work') :
    TalliedBy setup audit calls context (Machine.counted context work) (Machine.counted context work') := by
  intro world accounted
  have done := inner _ (accounted.deeper room)
  rw [Machine.counted_run,Machine.counted_run]
  dsimp only
  rw [done.same]
  generalize work { world with contexts := world.contexts.modify context Machine.deeper } = ending at done
  have grown := done.contexts
  rw [Array.size_modify] at grown
  refine ⟨rfl, done.tallied.shallower, by rwa [Array.size_modify], fun id old => ?_⟩
  refine (World.view_modify (·.commands) ending.2 context id Machine.shallower fun _ => rfl).trans ?_
  refine (done.commands id (by rwa [Array.size_modify])).trans ?_
  exact World.view_modify (·.commands) world context id Machine.deeper fun _ => rfl

private theorem TalliedBy.allocate (object : Object) :
    TalliedBy setup audit calls context (Exec.onHeap (allocate object)) (Exec.onHeap (allocate object)) :=
  elsewhere nofun fun _ => rfl

private theorem TalliedBy.notify (hook : Option HookMode) (slot : String) (event : Event) :
    TalliedBy setup audit calls context (Machine.notify hook slot event) (Machine.notify hook slot event) := by
  rcases hook with _ | _ | _
  · exact pure ()
  · exact elsewhere nofun fun _ => rfl
  · exact bind (elsewhere nofun fun _ => rfl) fun _ => throw rfl

end Rules

/-- To be told the calls under way makes no difference to anything that machines do. -/
def Discipline.tallying (setup : Setup) (audit : Audit) (modest : audit.refusal = .callDepth ∨ setup.host.Modest)
    (calls : List ContextId) : Discipline (id : List Line → List Line) setup where
  hosted := !audit.single
  Rel context _ _ _ one two := TalliedBy setup audit calls context one two
  Halts halt := halt.relabel audit.refusal = halt
  Alike heap heap' := heap = heap'
  Known run := audit.single = true → run.commands = .empty
  At _ := True
  On _ := True
  Fine _ := True
  Body _ := True
  Does action := audit.refusal = .callDepth ∨ action.Modest
  Fit options := audit.refusal = .callDepth ∨ options.hooks.error = none
  pure _ := .pure _
  throw := .throw
  bind head tail := head.bind fun value => tail value fun _ _ => trivial
  placed other := Halt.relabel_fault other _
  tooDeep := rfl
  endless := rfl
  tooLarge := rfl
  flat _ := trivial
  answers := @Heap.SameAnswers.of_eq
  closed _ _ _ _ _ _ _ := trivial
  heap tail := fun world => tail world.heap world.heap rfl world
  scopes tail := fun world => tail world.scopes (fun _ _ _ _ _ _ => trivial) world
  evaluate _ token :=
    .onHeap modest ((Likeness.modest setup.host audit.refusal modest).evaluate (fun _ _ _ => trivial) token)
  hostText _ := .askHeap fun _ _ failed => (Likeness.modest setup.host audit.refusal modest).halts_hostText failed
  displayText _ := .askHeap fun _ _ failed =>
    (Likeness.modest setup.host audit.refusal modest).halts_displayText failed
  method _ name := .onHeap modest ((Likeness.modest setup.host audit.refusal modest).method trivial name)
  member _ name := .onHeap modest ((Likeness.modest setup.host audit.refusal modest).member trivial name)
  call _ _ :=
    .onHeap modest ((Likeness.modest setup.host audit.refusal modest).callValue trivial fun _ _ => trivial)
  context {context} _ _ _ _ _ _ tail := fun world accounted => by
    have same := tail (world.contextAt context) (fun only => (accounted.single only).2) world accounted
    rwa [Context.recode_id] at same
  dependencies _ _ _ := trivial
  facing _ _ _ := trivial
  within _ _ _ _ := trivial
  declare _ name value _ isConst := .declare modest _ name value isConst
  assign _ name value _ := .assign modest _ name value
  child _ _ _ tail := .bind (.elsewhere nofun fun _ => rfl) fun frame => tail frame trivial
  pushResult _ := .modifyContext _ (fun _ => rfl) fun _ => rfl
  exportBound {context} name source frame _ _ _ next _ next' _ tail failed := by
    intro world accounted
    rw [Machine.exportBound_run,Machine.exportBound_run]
    split
    · have shared : TalliedBy setup audit calls context (Machine.addExport name source frame context >>= fun _ => next)
          (Machine.addExport name source frame context >>= fun _ => next') :=
        .bind (.modifyContext context (fun _ => rfl) fun _ => rfl) fun _ => tail
      exact shared world accounted
    · exact failed world accounted
  exportDeclared _ name value _ isConst := .bind (.declare modest _ name value isConst) fun _ =>
    .modifyContext _ (fun _ => rfl) fun _ => rfl
  exportAssigned _ name value _ := .bind (.assign modest _ name value) fun _ =>
    .modifyContext _ (fun _ => rfl) fun _ => rfl
  define _ _ _ _ _ := .bind (.modifyContext _ (fun _ => rfl) fun _ => rfl) fun _ =>
    .elsewhere nofun fun _ => rfl
  log _ _ _ := .elsewhere nofun fun _ => rfl
  write _ := .elsewhere nofun fun _ => rfl
  surface _ := .elsewhere nofun fun _ => rfl
  onSurface _ _ _ halts := .onSurface _ fun _ _ failed => halts _ _ failed
  stopIfInvalid value line := .elsewhere
    (fun world halt raised => by
      rw [Machine.stopIfInvalid_run] at raised
      dsimp only at raised
      split at raised
      · cases raised
        rfl
      · cases raised)
    fun world => by rw [Machine.stopIfInvalid_run]
  located line _ _ inner := .located line inner
  replaced _ line names _ := .family modest _ line names
  allocate _ object _ := .allocate object
  document _ response := .onHeap modest ((Likeness.modest setup.host audit.refusal modest).body
    (fun _ problem => by cases problem <;> rfl) response)
  request _ _ := .elsewhere nofun fun _ => rfl
  unreachable _ := rfl
  timeout _ _ _ _ := rfl
  plain unhosted _ known := known (by simpa using unhosted)
  handler _ _ handler _ given _ _ := modest.imp_right fun modest => modest.handler handler given
  gives _ := trivial
  fails does := by
    rcases does with same | modest
    · rw [same,Halt.relabel_callDepth]
    · exact Halt.relabel_of_not_refusal modest _
  examine does heap _ alike := alike ▸ ⟨rfl, does.imp_right fun modest => modest heap⟩
  make does := ⟨.allocate _, fun value _ => does.imp_right fun modest => modest value⟩
  visible does table _ := does.imp_right fun modest => modest table
  hostAssign does _ _ := ⟨.assign modest _ _ _, does⟩
  hostErase does _ _ := ⟨.onScopes fun scopes halt failed => by
    unfold Scopes.erase at failed
    split at failed
    · cases failed
    · cases failed
      rfl, does⟩
  nested {_ _ _ overrides _} _ frame _ _ _ _ _ tail := by
    intro world accounted
    obtain ⟨options, surfaces, hookless, run⟩ := Machine.nestedOptions_hookless overrides frame _ world
    rw [Exec.bind_run,Exec.bind_run,run]
    have begun : Accounted setup audit calls _ { world with surfaces } :=
      ⟨accounted.tallied.counters rfl fun _ => rfl, accounted.inside, accounted.single⟩
    have ended := tail options (.inr (by rw [hookless])) { world with surfaces } begun
    exact ⟨ended.same, ended.tallied, ended.contexts, ended.commands⟩
  resumes does record _ := does.imp_right fun modest => modest record
  session allowed _ fit _ _ inner := fun _ accounted =>
    TalliedBy.session fit (fun only => by simp [only] at allowed) (fun root context => inner root context trivial)
      accounted.tallied

private theorem Discipline.tallying_tells (setup : Setup) (audit : Audit)
    (modest : audit.refusal = .callDepth ∨ setup.host.Modest) (calls : List ContextId) :
    (tallying setup audit modest calls).Tells where
  start name line := by
    cases name with
    | none => exact TalliedBy.pure ()
    | some name => exact fun world accounted => TalliedBy.notify _ _ _ world accounted
  finish name line value := by
    cases name with
    | none => exact TalliedBy.pure ()
    | some name => exact fun world accounted => TalliedBy.notify _ _ _ world accounted

section Levels

variable {setup : Setup} {audit : Audit} {calls : List ContextId} {context : ContextId}

private theorem Machine.check_run {world : World} (tallied : world.Tallied setup audit.single calls) :
    check setup audit calls world = (.ok (), world) := by
  simp only [check,Exec.bind_run,Exec.get_run,if_pos tallied]
  rfl

/-- The account is right, so testing it changes nothing. -/
theorem Tallies.checked {α : Type} {world : World} {one : Except Halt α × World} {two : Exec α}
    (tallied : world.Tallied setup audit.single calls) (done : Tallies setup audit calls world one (two world)) :
    Tallies setup audit calls world one (Machine.checked setup audit calls two world) := by
  refine { done with same := ?_ }
  simp only [Machine.checked,Exec.bind_run,Exec.attempt_run,Machine.check_run tallied,done.same,
    Machine.check_run done.tallied,Exec.liftExcept_run]

private theorem TalliedBy.checked {α : Type} {one two : Exec α} (inner : TalliedBy setup audit calls context one two) :
    TalliedBy setup audit calls context one (Machine.checked setup audit calls two) :=
  fun world accounted => (inner world accounted).checked accounted.tallied

/-- A call is refused by the account exactly when it is refused by the counter of its context. -/
private theorem TalliedBy.enter (modest : audit.refusal = .callDepth ∨ setup.host.Modest) {machine : Machine}
    {machine' : List ContextId → Machine} (name : String) (function : FunctionDef) (args : List Value)
    (body : ∀ frame, TalliedBy setup audit (context :: calls) context (machine.block function.body frame context)
      ((machine' (context :: calls)).block function.body frame context)) :
    TalliedBy setup audit calls context (machine.enter setup name function args context)
      (Machine.tallyEntry setup audit machine' calls name function args context) := by
  intro world accounted
  have depth := accounted.tallied.depths context accounted.inside
  have failed {cause cause' : Cause} (same : (Halt.ofCause cause).relabel audit.refusal = .ofCause cause') :
      Tallies setup audit calls world ((Exec.fail cause : Exec Value) world) (Exec.fail cause' world) := by
    refine ⟨?_, accounted.tallied, Nat.le_refl _, fun _ _ => rfl⟩
    exact Prod.ext (congrArg Except.error same.symm) rfl
  simp only [Machine.enter,Exec.bind_run,Exec.context_run,Machine.tallyEntry,depth]
  by_cases wrong : args.length ≠ function.params.length
  · rw [if_pos wrong,if_pos wrong]
    exact failed (Halt.relabel_fault (by nofun) _)
  rw [if_neg wrong,if_neg wrong]
  by_cases full : setup.maxCallDepth ≤ calls.count context
  · rw [if_pos full,if_pos full]
    exact failed rfl
  · rw [if_neg full,if_neg full]
    have entered : (Discipline.tallying setup audit modest calls).Rel context none
        (machine.runBody function args context) ((machine' (context :: calls)).runBody function args context) :=
      (Discipline.tallying setup audit modest calls).runBody trivial (fun _ _ => trivial) fun frame _ =>
        TalliedBy.counted full (body frame)
    exact entered world accounted

/-- The machine of a level does what the machine does that is told the calls under way, whatever these
are. -/
theorem Machine.tally_level (modest : audit.refusal = .callDepth ∨ setup.host.Modest) (depth : Nat)
    (calls : List ContextId) :
    (Discipline.tallying setup audit modest calls).Blocks (fun _ => True) (fun _ => True)
      (level setup depth) (tallied setup audit depth calls) ∧
    (Discipline.tallying setup audit modest calls).Calls (fun _ => True)
      (level setup depth) (tallied setup audit depth calls) ((level setup depth).enter setup)
      (tallyEntry setup audit (tallied setup audit depth) calls) := by
  -- bodies of functions are run with one call more, so the induction is for all calls at once
  induction depth generalizing calls with
  | zero =>
    refine ⟨⟨fun _ => rfl, fun _ => trivial, fun _ _ _ _ => TalliedBy.throw rfl, fun _ _ _ _ _ => TalliedBy.throw rfl⟩,
      ⟨fun _ _ _ _ _ => TalliedBy.throw rfl, ?_, fun _ _ _ _ _ _ => TalliedBy.throw rfl⟩⟩
    exact fun {_} _ {name function} _ {args} _ context _ =>
      TalliedBy.enter modest name function args fun _ => TalliedBy.throw rfl
  | succ depth ih =>
    have blocks (calls : List ContextId) :
        (Discipline.tallying setup audit modest calls).Blocks (fun _ => True) (fun _ => True)
          (level setup (depth + 1)) (tallied setup audit (depth + 1) calls) := by
      obtain ⟨below, inside⟩ := ih calls
      have commands (line : Line) (frame : FrameId) (context : ContextId) (home : Option FrameId) :
          (Discipline.tallying setup audit modest calls).Rel context home
            ((level setup depth).command setup line frame context)
            ((tallied setup audit depth calls).commandBy setup
              (tallyEntry setup audit (tallied setup audit depth) calls) line frame context) := by
        rw [command_eq]
        exact (Discipline.tallying setup audit modest calls).commandBy inside
          (Discipline.tallying_tells setup audit modest calls)
          ((Discipline.tallying setup audit modest calls).runs_fully id line)
          (fun _ => Halt.relabel_fault (by simp) _) trivial
      refine ⟨below.code, fun _ => trivial, ?_, ?_⟩
      · intro lines _ frame _ context
        have each (statement : Statement) : (Discipline.tallying setup audit modest calls).Rel context (some frame)
            ((level setup depth).statement setup frame context statement)
            (checked setup audit calls ((tallied setup audit depth calls).statementBy setup
              ((tallied setup audit depth calls).commandBy setup
                (tallyEntry setup audit (tallied setup audit depth) calls) · frame context) frame context statement)) := by
          refine TalliedBy.checked ?_
          rw [statement_eq]
          exact (Discipline.tallying setup audit modest calls).statementBy below trivial (fun _ _ => trivial)
            (fun _ _ => trivial) fun line _ => commands line frame context (some frame)
        exact TalliedBy.checked ((Discipline.tallying setup audit modest calls).items (Statement.strict_items lines)
          fun _ _ statement _ => each statement)
      · intro token _ frame _ context home
        refine TalliedBy.checked ?_
        rw [token_level]
        exact (Discipline.tallying setup audit modest calls).tokenBy inside
          ((Discipline.tallying setup audit modest calls).runs_fully id _) trivial fun _ =>
          commands (Text.trim token) frame context home
    refine ⟨blocks calls, (blocks calls).token, ?_, ?_⟩
    · intro run _ name function _ args _ context _
      exact TalliedBy.enter modest name function args fun frame =>
        (blocks (context :: calls)).block trivial trivial context
    · intro hosted source options fit context home
      have ran : (Discipline.tallying setup audit modest calls).Rel context home
          ((level setup depth).script source options) ((tallied setup audit depth calls).script source options) :=
        (Discipline.tallying setup audit modest calls).script (ih calls).1 hosted source fit
      exact TalliedBy.checked ran

end Levels

end Inyandiko
