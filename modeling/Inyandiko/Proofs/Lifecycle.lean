import Inyandiko.Proofs.Discipline.Level

/-! Lifecycle events are well bracketed. An end belongs to the latest start that has none yet, and has
its name and its line. A run that is not stopped leaves no start without an end. What a stopped run
leaves open are the commands it was in: a machine that tells the end of a command also when it is left
early does the same and closes exactly these, from the inside out. -/
namespace Inyandiko

open Source

/-- A command that was started, by its name and its line. -/
structure Opening where
  name : String
  line : String
  deriving DecidableEq, Repr

namespace Opening

def start (opening : Opening) : Event := .start opening.name opening.line

def finish (value : Datum) (opening : Opening) : Event := .finish opening.name opening.line value

end Opening

namespace Event

/-- The open commands after one more event, the latest first. Only the latest one can be closed, by an
end with its name and its line; errors are neither starts nor ends. -/
def follow : List Opening → Event → Option (List Opening)
  | opened, .start name line => some (⟨name, line⟩ :: opened)
  | opening :: opened, .finish name line _ => if opening = ⟨name, line⟩ then some opened else none
  | [], .finish .. => none
  | _, .error _ => none

/-- The commands that are open after a word of events, the latest first, if every end has its start. -/
def unmatched (opened : List Opening) (word : List Event) : Option (List Opening) :=
  word.foldlM follow opened

theorem unmatched_append (opened : List Opening) (word rest : List Event) :
    unmatched opened (word ++ rest) = (unmatched opened word).bind (unmatched · rest) :=
  List.foldlM_append

private theorem follow_below {opened left : List Opening} {event : Event} (followed : follow opened event = some left)
    (below : List Opening) : follow (opened ++ below) event = some (left ++ below) := by
  cases event with
  | start name line =>
    cases followed
    rfl
  | finish name line value =>
    cases opened with
    | nil => cases followed
    | cons opening opened =>
      simp only [follow,List.cons_append] at followed ⊢
      split at followed
      · rename_i same
        cases followed
        rw [if_pos same]
      · cases followed
  | error halt => simp [follow] at followed

private theorem unmatched_below {opened left : List Opening} {word : List Event}
    (matched : unmatched opened word = some left) (below : List Opening) :
    unmatched (opened ++ below) word = some (left ++ below) := by
  induction word generalizing opened with
  | nil =>
    cases matched
    rfl
  | cons event word ih =>
    obtain ⟨next, followed, rest⟩ := Option.bind_eq_some_iff.1 matched
    exact Option.bind_eq_some_iff.2 ⟨next ++ below, follow_below followed below, ih rest⟩

/-- Ends from the inside out close all open commands. -/
theorem unmatched_finish (opened : List Opening) (value : Datum) :
    unmatched opened (opened.map (Opening.finish value)) = some [] := by
  induction opened with
  | nil => rfl
  | cons opening opened ih =>
    refine Option.bind_eq_some_iff.2 ⟨opened, ?_, ih⟩
    simp [Opening.finish,follow]

/-- A word inside a command leaves open what it leaves open alone, and the command below. -/
theorem unmatched_start {word : List Event} {opened : List Opening} (matched : unmatched [] word = some opened)
    (opening : Option Opening) :
    unmatched [] (opening.toList.map Opening.start ++ word) = some (opened ++ opening.toList) := by
  cases opening with
  | none => simpa using matched
  | some opening => exact unmatched_below matched [opening]

end Event

/-- A world where more events have been told. -/
def World.tell (world : World) (word : List Event) : World :=
  { world with events := world.events ++ word.toArray }

namespace World

theorem tell_nil (world : World) : world.tell [] = world := by simp [tell]

theorem tell_tell (world : World) (word rest : List Event) :
    (world.tell word).tell rest = world.tell (word ++ rest) := by
  simp [tell]

theorem tell_events (world : World) (word : List Event) :
    (world.tell word).events.toList = world.events.toList ++ word := by
  simp [tell]

end World

/-- The hooks for the start and the end of commands: both or none, and they do not fail. -/
def Hooks.Paired (hooks : Hooks) : Prop := hooks.start = hooks.finish ∧ hooks.start ≠ some .failing

namespace Machine

/-- The command that hooks are told of, if they are: it has a name. -/
def announced (hooks : Hooks) (name : Option String) (line : Line) : Option Opening :=
  name.bind fun name => hooks.start.map fun _ => ⟨name, String.ofList line⟩

theorem notify_calm {hook : Option HookMode} (calm : hook ≠ some .failing) (slot : String) (event : Event)
    (world : World) : notify hook slot event world = (.ok (), world.tell (hook.toList.map fun _ => event)) := by
  rcases hook with _ | _ | _
  · exact congrArg (Except.ok (), ·) world.tell_nil.symm
  · simp only [notify,Exec.bind_run,Exec.record,World.tell]
    rfl
  · exact absurd rfl calm

private theorem notifyStart_paired (name : Option String) (line : Line) (context : ContextId) {world : World}
    (paired : (world.contextAt context).hooks.Paired) :
    notifyStart name line context world =
      (.ok (), world.tell ((announced (world.contextAt context).hooks name line).toList.map Opening.start)) := by
  cases name with
  | none => exact congrArg (Except.ok (), ·) world.tell_nil.symm
  | some name =>
    simp only [notifyStart,Exec.bind_run,Exec.context_run]
    rw [notify_calm paired.2]
    rcases started : (world.contextAt context).hooks.start with _ | mode <;>
      simp [announced,started,Opening.start]

private theorem notifyFinish_paired (name : Option String) (line : Line) (value : Value) (context : ContextId)
    {world : World} (paired : (world.contextAt context).hooks.Paired) :
    notifyFinish name line value context world =
      (.ok (), world.tell ((announced (world.contextAt context).hooks name line).toList.map
        (Opening.finish (world.heap.contents value)))) := by
  cases name with
  | none => exact congrArg (Except.ok (), ·) world.tell_nil.symm
  | some name =>
    simp only [notifyFinish,Exec.bind_run,Exec.heap_run,Exec.context_run]
    rw [notify_calm (paired.1 ▸ paired.2),← paired.1]
    rcases started : (world.contextAt context).hooks.start with _ | mode <;>
      simp [announced,started,Opening.finish]

/-- The end of a run without hooks changes nothing but the log. -/
theorem conclude_hookless (root : FrameId) (context : ContextId) (outcome : Except Halt (Option Value))
    (world : World) : ∃ log, (conclude {} root context outcome world).2 = { world with log } := by
  rcases outcome with halt | signal
  · cases halt <;> exact ⟨_, rfl⟩
  · exact ⟨_, rfl⟩

/-- Runs a command and tells its end also when it is left early. -/
def closing (machine : Machine) (setup : Setup) (line : Line) (frame : FrameId) (context : ContextId) :
    Exec Value := do
  match ← Exec.attempt (machine.command setup line frame context) with
  | .ok value => return value
  | .error halt =>
    notifyFinish ((Call.parse? line).map (·.name)) line .null context
    throw halt

/-- The machine of a level that tells the end of every command, also of those that are left early. -/
def closingLevel (setup : Setup) : Nat → Machine
  | 0 => exhausted id
  | depth + 1 =>
    let machine := closingLevel setup depth
    { code := machine.code
      block := fun lines frame context =>
        items (machine.statementBy setup (machine.closing setup · frame context) frame context)
          (Statement.items lines)
      token := fun token frame context =>
        machine.tokenBy (machine.enter setup) (machine.closing setup · frame context) token frame context
      run := machine.script }

end Machine

/-- A computation tells a word of events and leaves some commands open; another one does the same and
closes them. Nothing is left open by what comes to its end, and nothing is told where there are no
hooks. -/
structure Closes {α : Type} (context : ContextId) (world : World) (plain closed : Except Halt α × World)
    (word : List Event) (opened : List Opening) : Prop where
  events : plain.2.events.toList = world.events.toList ++ word
  unmatched : Event.unmatched [] word = some opened
  mute : (world.contextAt context).hooks.start = none → word = []
  complete (value : α) : plain.1 = .ok value → opened = []
  closed : closed = (plain.1, plain.2.tell (opened.map (Opening.finish .null)))
  contexts : world.contexts.size ≤ plain.2.contexts.size
  hooks : ∀ id < world.contexts.size, (plain.2.contextAt id).hooks = (world.contextAt id).hooks

private theorem Closes.silent {α : Type} {context : ContextId} {world : World} {ending : Except Halt α × World}
    (events : ending.2.events = world.events) (contexts : world.contexts.size ≤ ending.2.contexts.size)
    (hooks : ∀ id < world.contexts.size, (ending.2.contextAt id).hooks = (world.contextAt id).hooks) :
    Closes context world ending ending [] [] where
  events := by rw [events,List.append_nil]
  unmatched := rfl
  mute _ := rfl
  complete _ _ := rfl
  closed := congrArg (ending.1, ·) ending.2.tell_nil.symm
  contexts := contexts
  hooks := hooks

private theorem Closes.around {α : Type} {context id : ContextId} {world : World} {plain closed : Except Halt α × World}
    {word : List Event} {opened : List Opening} {before after : Context → Context}
    (done : Closes context { world with contexts := world.contexts.modify id before } plain closed word opened)
    (keeps : ∀ run, (before run).hooks = run.hooks) (keeps' : ∀ run, (after run).hooks = run.hooks) :
    Closes context world (plain.1, { plain.2 with contexts := plain.2.contexts.modify id after })
      (closed.1, { closed.2 with contexts := closed.2.contexts.modify id after }) word opened where
  events := done.events
  unmatched := done.unmatched
  mute none := done.mute ((World.view_modify (·.hooks.start) world id context before fun run => by
    rw [keeps]).trans none)
  complete := done.complete
  closed := by
    rw [done.closed]
    rfl
  contexts := by
    have more := done.contexts
    rw [Array.size_modify] at more
    rwa [Array.size_modify]
  hooks other old := by
    have same := done.hooks other (by rwa [Array.size_modify])
    exact (World.view_modify (·.hooks) plain.2 id other after keeps').trans
      (same.trans (World.view_modify (·.hooks) world id other before keeps))

/-- Computations of a context that differ only in what is closed. -/
def ClosedBy {α : Type} (context : ContextId) (plain closed : Exec α) : Prop :=
  ∀ world : World, context < world.contexts.size → (world.contextAt context).hooks.Paired →
    ∃ word opened, Closes context world (plain world) (closed world) word opened

namespace ClosedBy

variable {α β : Type} {context : ContextId}

private theorem aside {work : Exec α} (events : ∀ world, (work world).2.events = world.events)
    (contexts : ∀ world, (work world).2.contexts.size = world.contexts.size)
    (hooks : ∀ world id, ((work world).2.contextAt id).hooks = (world.contextAt id).hooks) :
    ClosedBy context work work :=
  fun world _ _ => ⟨[], [], .silent (events world) (Nat.le_of_eq (contexts world).symm) fun id _ => hooks world id⟩

private theorem elsewhere {work : Exec α}
    (same : ∀ world, (work world).2.events = world.events ∧ (work world).2.contexts = world.contexts) :
    ClosedBy context work work :=
  aside (fun world => (same world).1) (fun world => by rw [(same world).2])
    fun world id => by simp only [World.contextAt,(same world).2]

private theorem modifyContext (id : ContextId) {change : Context → Context}
    (hooks : ∀ run, (change run).hooks = run.hooks) :
    ClosedBy context (Exec.modifyContext id change) (Exec.modifyContext id change) :=
  aside (fun _ => rfl) (fun _ => Array.size_modify) fun world other =>
    World.view_modify (·.hooks) world id other change hooks

private theorem onHeap (step : HeapM α) : ClosedBy context (Exec.onHeap step) (Exec.onHeap step) := by
  refine elsewhere fun world => ?_
  rw [Exec.onHeap_run]
  split <;> exact ⟨rfl, rfl⟩

private theorem onScopes (change : Scopes → Except Halt Scopes) :
    ClosedBy context (Exec.onScopes change) (Exec.onScopes change) := by
  refine elsewhere fun world => ?_
  rw [Exec.onScopes_run]
  split <;> exact ⟨rfl, rfl⟩

private theorem bind {first first' : Exec α} {next next' : α → Exec β} (head : ClosedBy context first first')
    (tail : ∀ value, ClosedBy context (next value) (next' value)) :
    ClosedBy context (first >>= next) (first' >>= next') := by
  intro world inside paired
  obtain ⟨word, opened, begun⟩ := head world inside paired
  have second := begun.closed
  rw [Exec.bind_run,Exec.bind_run,second]
  rcases result : first world with ⟨halt | value, after⟩
  · rw [result] at begun
    exact ⟨word, opened, { begun with complete := nofun, closed := rfl }⟩
  rw [result] at begun
  -- the first one came to its end, so the second one begins with nothing open
  obtain rfl := begun.complete value rfl
  have same : (after.contextAt context).hooks = (world.contextAt context).hooks := begun.hooks context inside
  obtain ⟨rest, opened, ended⟩ := tail value after (Nat.lt_of_lt_of_le inside begun.contexts) (same ▸ paired)
  refine ⟨word ++ rest, opened, ?_⟩
  exact {
    events := by rw [ended.events,begun.events,List.append_assoc]
    unmatched := by rw [Event.unmatched_append,begun.unmatched]; exact ended.unmatched
    mute := fun none => by rw [begun.mute none,ended.mute (same ▸ none)]; rfl
    complete := ended.complete
    closed := by
      rw [List.map_nil,World.tell_nil]
      exact ended.closed
    contexts := Nat.le_trans begun.contexts ended.contexts
    hooks := fun id old =>
      (ended.hooks id (Nat.lt_of_lt_of_le old begun.contexts)).trans (begun.hooks id old) }

private theorem located (line : Line) {work work' : Exec α} (inner : ClosedBy context work work') :
    ClosedBy context (Machine.located line work) (Machine.located line work') := by
  intro world inside paired
  obtain ⟨word, opened, done⟩ := inner world inside paired
  rw [Machine.located_run,Machine.located_run,done.closed]
  refine ⟨word, opened, { done with complete := fun value ended => ?_, closed := rfl }⟩
  cases outcome : (work world).1 with
  | ok value => exact done.complete value outcome
  | error halt =>
    rw [outcome] at ended
    cases ended

private theorem session {options : RunOptions} (hookless : options.hooks = {})
    {work work' : FrameId → ContextId → Exec (Option Value)}
    (inner : ∀ root context, ClosedBy context (work root context) (work' root context)) :
    ClosedBy context (Machine.session options work) (Machine.session options work') := by
  intro world inside paired
  have own : (world.opened options).contextAt world.contexts.size = Machine.startContext options := by
    rw [World.contextAt_opened,if_pos rfl]
  have silent : ((world.opened options).contextAt world.contexts.size).hooks = {} := by rw [own]; exact hookless
  obtain ⟨word, opened, done⟩ := inner world.scopes.frames.size world.contexts.size (world.opened options)
    (by simp [World.opened]) (by rw [silent]; exact ⟨rfl, by simp⟩)
  -- without hooks nothing is told, so nothing is left open
  obtain rfl := done.mute (by rw [silent])
  cases done.unmatched
  have same := done.closed
  rw [List.map_nil,World.tell_nil] at same
  rw [Machine.session_run,Machine.session_run,same,hookless]
  obtain ⟨log, ended⟩ := Machine.conclude_hookless world.scopes.frames.size world.contexts.size
    (work world.scopes.frames.size world.contexts.size (world.opened options)).1
    (work world.scopes.frames.size world.contexts.size (world.opened options)).2
  have older {id : ContextId} (old : id < world.contexts.size) : id < (world.opened options).contexts.size := by
    rw [World.opened,Array.size_push]
    exact Nat.lt_succ_of_lt old
  refine ⟨[], [], .silent ?_ ?_ fun id old => ?_⟩
  · rw [ended]
    exact Array.toList_inj.1 (done.events.trans (List.append_nil _))
  · rw [ended]
    exact Nat.le_trans (by simp [World.opened]) done.contexts
  · rw [ended]
    refine (done.hooks id (older old)).trans ?_
    rw [World.contextAt_opened,if_neg (Nat.ne_of_lt old)]

end ClosedBy

/-- Telling the end of commands that are left early is all that machines which do so do differently. -/
def Discipline.closing (setup : Setup) : Discipline (id : List Line → List Line) setup where
  hosted := true
  Rel context _ _ _ plain closed := ClosedBy context plain closed
  Halts _ := True
  Alike heap heap' := heap = heap'
  Known _ := True
  At _ := True
  On _ := True
  Fine _ := True
  Body _ := True
  Does _ := True
  Fit options := options.hooks = {}
  pure _ := .elsewhere fun _ => ⟨rfl, rfl⟩
  throw _ := .elsewhere fun _ => ⟨rfl, rfl⟩
  bind head tail := head.bind fun value => tail value fun _ _ => trivial
  fault _ := trivial
  placed _ := trivial
  tooDeep := trivial
  endless := trivial
  tooLarge := trivial
  flat _ := trivial
  answers := @Heap.SameAnswers.of_eq
  closed _ _ _ _ _ _ _ := trivial
  heap tail := fun world => tail world.heap world.heap rfl world
  scopes tail := fun world => tail world.scopes (fun _ _ _ _ _ _ => trivial) world
  evaluate _ _ := .onHeap _
  hostText _ := .elsewhere fun world => by
    rw [Exec.hostText,Exec.askHeap_run]
    exact ⟨rfl, rfl⟩
  displayText _ := .elsewhere fun world => by
    rw [Exec.displayText,Exec.askHeap_run]
    exact ⟨rfl, rfl⟩
  method _ _ := .onHeap _
  member _ _ := .onHeap _
  call _ _ := .onHeap _
  context {context} _ _ _ _ next' _ tail := fun world inside paired => by
    have same := tail (world.contextAt context) trivial world inside paired
    rwa [Context.recode_id] at same
  dependencies _ _ _ := trivial
  facing _ _ _ := trivial
  within _ _ _ _ := trivial
  declare _ _ _ _ _ := .onScopes _
  assign _ _ _ _ := .onScopes _
  child {context _ _ _} parent _ next next' tail :=
    ClosedBy.bind (.elsewhere fun _ => ⟨rfl, rfl⟩) fun frame => tail frame trivial
  pushResult _ := .modifyContext _ fun _ => rfl
  exportBound {context} name source frame _ _ _ next _ next' _ tail failed := by
    intro world inside paired
    rw [Machine.exportBound_run,Machine.exportBound_run]
    split
    · have shared : ClosedBy context (Machine.addExport name source frame context >>= fun _ => next)
          (Machine.addExport name source frame context >>= fun _ => next') :=
        .bind (.modifyContext context fun _ => rfl) fun _ => tail
      exact shared world inside paired
    · exact failed world inside paired
  exportDeclared _ _ _ _ _ := .bind (.onScopes _) fun _ => .modifyContext _ fun _ => rfl
  exportAssigned _ _ _ _ := .bind (.onScopes _) fun _ => .modifyContext _ fun _ => rfl
  define _ _ _ _ _ := .bind (.modifyContext _ fun _ => rfl) fun _ => .elsewhere fun _ => ⟨rfl, rfl⟩
  log _ _ _ := .elsewhere fun _ => ⟨rfl, rfl⟩
  write _ := .elsewhere fun _ => ⟨rfl, rfl⟩
  surface _ := .elsewhere fun _ => ⟨rfl, rfl⟩
  onSurface _ _ _ _ := .elsewhere fun world => by
    rw [Exec.onSurface_run]
    split <;> exact ⟨rfl, rfl⟩
  stopIfInvalid value line := .elsewhere fun world => by
    rw [Machine.stopIfInvalid_run]
    exact ⟨rfl, rfl⟩
  located line _ _ inner := .located line inner
  replaced _ _ _ _ := .onHeap _
  allocate _ _ _ := .onHeap _
  document _ _ := .onHeap _
  request _ _ := .elsewhere fun _ => ⟨rfl, rfl⟩
  unreachable _ := trivial
  timeout _ _ _ _ := trivial
  plain := Context.plain_of_hosted
  handler _ _ _ _ _ _ _ := trivial
  gives _ := trivial
  fails _ := trivial
  examine _ heap _ alike := alike ▸ ⟨rfl, trivial⟩
  make _ := ⟨.onHeap _, fun _ _ => trivial⟩
  visible _ _ _ := trivial
  hostAssign _ _ _ := ⟨.onScopes _, trivial⟩
  hostErase _ _ _ := ⟨.onScopes _, trivial⟩
  nested {_ _ _ overrides _} _ frame _ _ _ _ _ tail := by
    intro world inside paired
    obtain ⟨options, surfaces, hookless, run⟩ := Machine.nestedOptions_hookless overrides frame _ world
    rw [Exec.bind_run,Exec.bind_run,run]
    obtain ⟨word, opened, ended⟩ := tail options hookless { world with surfaces } inside paired
    exact ⟨word, opened, ⟨ended.events, ended.unmatched, ended.mute, ended.complete, ended.closed,
      ended.contexts, ended.hooks⟩⟩
  resumes _ _ _ := trivial
  session _ _ fit _ _ inner := .session fit fun root context => inner root context trivial


private theorem Discipline.closing_counts (setup : Setup) : (Discipline.closing setup).Counts := by
  refine ⟨trivial, ?_⟩
  intro context home α _ work work' inner world inside paired
  rw [Machine.counted_run,Machine.counted_run]
  have hooks : (World.contextAt { world with contexts := world.contexts.modify context Machine.deeper }
      context).hooks = (world.contextAt context).hooks :=
    World.view_modify (·.hooks) world context context Machine.deeper fun _ => rfl
  obtain ⟨word, opened, done⟩ := inner { world with contexts := world.contexts.modify context Machine.deeper }
    (by rw [Array.size_modify]; exact inside) (by rw [hooks]; exact paired)
  exact ⟨word, opened, done.around (fun _ => rfl) fun _ => rfl⟩


section Commands

variable {setup : Setup} {machine machine' : Machine} {context : ContextId} {line : Line} {frame : FrameId}
  {world after : World} {opening : Option Opening}

private theorem Machine.command_left {halt : Halt} (paired : (world.contextAt context).hooks.Paired)
    (told : announced (world.contextAt context).hooks ((Call.parse? line).map (·.name)) line = opening)
    (left : machine.carryOut setup (machine.enter setup) (Call.parse? line) line frame context
      (world.tell (opening.toList.map Opening.start)) = (.error halt, after)) :
    machine.command setup line frame context world = (.error halt, after) := by
  simp only [command_eq,commandBy,Exec.bind_run,notifyStart_paired _ line context paired,told,left]

/-- A command that comes to its end has told its start and tells its end with its value. -/
private theorem Machine.command_done {value : Value} (paired : (world.contextAt context).hooks.Paired)
    (told : announced (world.contextAt context).hooks ((Call.parse? line).map (·.name)) line = opening)
    (done : machine.carryOut setup (machine.enter setup) (Call.parse? line) line frame context
      (world.tell (opening.toList.map Opening.start)) = (.ok value, after))
    (hooks : (after.contextAt context).hooks = (world.contextAt context).hooks) :
    machine.command setup line frame context world =
      (.ok value, after.tell (opening.toList.map (Opening.finish (after.heap.contents value)))) := by
  have still : (after.contextAt context).hooks.Paired := hooks ▸ paired
  simp only [command_eq,commandBy,Exec.bind_run,notifyStart_paired _ line context paired,told,done,
    notifyFinish_paired _ line value context still,hooks]
  rfl

private theorem Machine.closing_left {halt : Halt}
    (left : machine.command setup line frame context world = (.error halt, after))
    (paired : (after.contextAt context).hooks.Paired)
    (told : announced (after.contextAt context).hooks ((Call.parse? line).map (·.name)) line = opening) :
    machine.closing setup line frame context world =
      (.error halt, after.tell (opening.toList.map (Opening.finish .null))) := by
  have nothing : after.heap.contents .null = .null := by simp only [Heap.contents,Heap.contentsFrom]
  simp only [closing,Exec.bind_run,Exec.attempt_run,left,notifyFinish_paired _ line .null context paired,told,
    nothing]
  rfl

private theorem Machine.closing_done {value : Value}
    (done : machine.command setup line frame context world = (.ok value, after)) :
    machine.closing setup line frame context world = (.ok value, after) := by
  simp only [closing,Exec.bind_run,Exec.attempt_run,done]
  rfl

private theorem ClosedBy.command
    (inner : ClosedBy context (machine.carryOut setup (machine.enter setup) (Call.parse? line) line frame context)
      (machine'.carryOut setup (machine'.enter setup) (Call.parse? line) line frame context)) :
    ClosedBy context (machine.command setup line frame context) (machine'.closing setup line frame context) := by
  intro world inside paired
  generalize told : Machine.announced (world.contextAt context).hooks ((Call.parse? line).map (·.name)) line =
    opening
  obtain ⟨word, opened, done⟩ := inner (world.tell (opening.toList.map Opening.start)) inside paired
  have hooks := done.hooks context inside
  have second := done.closed
  have silent (none : (world.contextAt context).hooks.start = none) : opening = Option.none := by
    rw [← told]
    cases (Call.parse? line).map (·.name) <;> simp [Machine.announced,none]
  rcases result : machine.carryOut setup (machine.enter setup) (Call.parse? line) line frame context
    (world.tell (opening.toList.map Opening.start)) with ⟨halt | value, after⟩
  · rw [result] at done hooks second
    have closed := Machine.closing_left (Machine.command_left paired told second) (hooks ▸ paired)
      ((congrArg (Machine.announced · _ line) hooks).trans told)
    rw [World.tell_tell,← List.map_append] at closed
    rw [Machine.command_left paired told result,closed]
    -- left early, it is the outermost of the commands that are left open
    refine ⟨opening.toList.map Opening.start ++ word, opened ++ opening.toList, ?_⟩
    exact {
      events := by rw [done.events,World.tell_events,List.append_assoc]
      unmatched := Event.unmatched_start done.unmatched opening
      mute := fun none => by rw [silent none,done.mute none]; rfl
      complete := nofun
      closed := rfl
      contexts := done.contexts
      hooks := done.hooks }
  · rw [result] at done hooks second
    -- inside it nothing is left open, so its end meets its start
    obtain rfl := done.complete value rfl
    rw [List.map_nil,World.tell_nil] at second
    rw [Machine.closing_done (Machine.command_done paired told second hooks),
      Machine.command_done paired told result hooks]
    generalize after.heap.contents value = datum
    refine ⟨opening.toList.map Opening.start ++ word ++ opening.toList.map (Opening.finish datum), [], ?_⟩
    exact {
      events := by rw [World.tell_events,done.events,World.tell_events]; simp only [List.append_assoc]
      unmatched := by
        rw [Event.unmatched_append,Event.unmatched_start done.unmatched opening]
        exact Event.unmatched_finish _ datum
      mute := fun none => by rw [silent none,done.mute none]; rfl
      complete := fun _ _ => rfl
      closed := by rw [List.map_nil,World.tell_nil]
      contexts := done.contexts
      hooks := done.hooks }

end Commands

private theorem Machine.closed_level (setup : Setup) (depth : Nat) :
    (Discipline.closing setup).AgreeFully (level setup depth) (closingLevel setup depth) := by
  induction depth with
  | zero =>
    exact (Discipline.closing setup).agree_exhausted (Discipline.closing_counts setup) (fun _ => trivial)
      fun _ => rfl
  | succ depth ih =>
    have commands (line : Line) (frame : FrameId) (context : ContextId) :
        ClosedBy context ((level setup depth).command setup line frame context)
          ((closingLevel setup depth).closing setup line frame context) := by
      have inner : (Discipline.closing setup).Rel context none
          ((level setup depth).carryOut setup ((level setup depth).enter setup) (Call.parse? line) line
            frame context)
          ((closingLevel setup depth).carryOut setup ((closingLevel setup depth).enter setup)
            (Call.parse? line) line frame context) :=
        (Discipline.closing setup).carryOut ih.toCalls ((Discipline.closing setup).runs_fully id line)
          (fun _ => trivial) trivial
      exact .command inner
    refine (Discipline.closing setup).agree_next (Discipline.closing_counts setup) (fun _ => trivial) ih
      rfl rfl rfl rfl ?_ ?_
    · intro lines frame _ context
      refine (Discipline.closing setup).items (Statement.strict_items lines) fun item _ statement _ => ?_
      rw [statement_eq]
      exact (Discipline.closing setup).statementBy ih.toBlocks trivial (fun _ _ => trivial) (fun _ _ => trivial)
        fun line _ => commands line frame context
    · intro token frame _ context home
      simp only [token_level,closingLevel]
      refine (Discipline.closing setup).tokenBy ih.toCalls ((Discipline.closing setup).runs_fully id _) trivial
        fun _ => ?_
      exact commands (Text.trim token) frame context

/-- What a run tells its hooks: a word of starts and ends, and an error at most after it. -/
structure Lifecycle (world : World) (ending closed : Except Halt Record × World) (word : List Event)
    (opened : List Opening) (errors : List Event) : Prop where
  events : ending.2.events.toList = world.events.toList ++ word ++ errors
  failures : ∀ event ∈ errors, ∃ halt, event = .error halt
  unmatched : Event.unmatched [] word = some opened
  completed : Event.unmatched [] (word ++ opened.map (Opening.finish .null)) = some []
  closed : closed = (ending.1, { ending.2 with
    events := world.events ++ (word ++ opened.map (Opening.finish .null) ++ errors).toArray })
  recorded (record : Record) : ending.1 = .ok record → errors = []
  complete (record : Record) : ending.1 = .ok record → record.ok = true → opened = []

/-- What the end of a run tells its hook for errors, the same after all words. -/
structure Machine.LastTold {α : Type} (work : Exec α) (world : World) (errors : List Event) : Prop where
  events : (work world).2.events.toList = world.events.toList ++ errors
  failures : ∀ event ∈ errors, ∃ halt, event = .error halt
  recorded (value : α) : (work world).1 = .ok value → errors = []
  after (word : List Event) : work (world.tell word) =
    ((work world).1, { (work world).2 with events := world.events ++ (word ++ errors).toArray })

private theorem Machine.abort_tell (hooks : Hooks) (halt : Halt) (world : World) :
    ∃ errors, LastTold (abort hooks halt : Exec Record) world errors := by
  have pushed (word : List Event) :
      (world.events ++ word.toArray).push (.error halt) = world.events ++ (word ++ [Event.error halt]).toArray := by
    simp
  obtain ⟨start, finish, _ | _ | _⟩ := hooks
  · refine ⟨[], (List.append_nil _).symm, nofun, nofun, fun word => ?_⟩
    rw [List.append_nil]
    rfl
  all_goals
    refine ⟨[.error halt], Array.toList_push, by simp, nofun, fun word => ?_⟩
    rw [← pushed]
    rfl

private theorem Machine.conclude_tell (hooks : Hooks) (root : FrameId) (context : ContextId)
    (outcome : Except Halt (Option Value)) (world : World) :
    ∃ errors, LastTold (conclude hooks root context outcome) world errors := by
  rcases outcome with halt | signal
  · cases halt with
    | invalid line =>
      refine ⟨[], (List.append_nil _).symm, nofun, fun _ _ => rfl, fun word => ?_⟩
      rw [List.append_nil]
      rfl
    | _ => exact abort_tell hooks _ world
  · refine ⟨[], (List.append_nil _).symm, nofun, fun _ _ => rfl, fun word => ?_⟩
    rw [List.append_nil]
    rfl


private theorem Machine.ok_of_conclude {hooks : Hooks} {root : FrameId} {context : ContextId}
    {outcome : Except Halt (Option Value)} {world : World} {record : Record}
    (ended : (conclude hooks root context outcome world).1 = .ok record) (fine : record.ok = true) :
    ∃ signal, outcome = .ok signal := by
  rcases outcome with halt | signal
  · cases halt with
    | invalid line =>
      cases ended
      cases fine
    | _ => exact absurd ended (abort_ne_ok hooks _ world record)
  · exact ⟨signal, rfl⟩

private theorem ClosedBy.lifecycle {options : RunOptions} (paired : options.hooks.Paired)
    {work work' : FrameId → ContextId → Exec (Option Value)}
    (inner : ∀ root context, ClosedBy context (work root context) (work' root context)) (world : World) :
    ∃ word opened errors, Lifecycle world (Machine.session options work world)
      (Machine.session options work' world) word opened errors := by
  have own : (world.opened options).contextAt world.contexts.size = Machine.startContext options := by
    rw [World.contextAt_opened,if_pos rfl]
  obtain ⟨word, opened, done⟩ := inner world.scopes.frames.size world.contexts.size (world.opened options)
    (by simp [World.opened]) (by rw [own]; exact paired)
  rw [Machine.session_run,Machine.session_run,done.closed]
  generalize work world.scopes.frames.size world.contexts.size (world.opened options) = ending at done
  obtain ⟨outcome, after⟩ := ending
  obtain ⟨errors, last⟩ :=
    Machine.conclude_tell options.hooks world.scopes.frames.size world.contexts.size outcome after
  have told : after.events = world.events ++ word.toArray := by
    rw [← Array.toList_inj,Array.toList_append]
    exact done.events
  refine ⟨word, opened, errors, ?_⟩
  exact {
    events := last.events.trans (congrArg (· ++ errors) done.events)
    failures := last.failures
    unmatched := done.unmatched
    completed := by rw [Event.unmatched_append,done.unmatched]; exact Event.unmatched_finish opened .null
    closed := by
      dsimp only
      rw [last.after,told]
      simp only [Array.append_assoc,List.append_toArray,List.append_assoc]
    recorded := last.recorded
    complete := fun record ended fine => by
      obtain ⟨signal, rfl⟩ := Machine.ok_of_conclude ended fine
      exact done.complete signal rfl }

private theorem Machine.run_closed (setup : Setup) (depth : Nat) (source : String) {options : RunOptions}
    (paired : options.hooks.Paired) (world : World) :
    ∃ word opened errors, Lifecycle world ((level setup (depth + 1)).run source options world)
      ((closingLevel setup (depth + 1)).run source options world) word opened errors := by
  have agree := closed_level setup depth
  have inner (root : FrameId) (context : ContextId) :
      ClosedBy context
        ((level setup depth).block ((level setup depth).code (Source.lines source.toList)) root context)
        ((closingLevel setup depth).block ((closingLevel setup depth).code (Source.lines source.toList)) root
          context) := by
    rw [← agree.code]
    exact agree.block trivial trivial context
  obtain ⟨word, opened, errors, told⟩ := ClosedBy.lifecycle paired inner
    (world.logged s!"run started: {(Source.lines source.toList).length} logical lines")
  exact ⟨word, opened, errors, ⟨told.events, told.failures, told.unmatched, told.completed, told.closed,
    told.recorded, told.complete⟩⟩

/-- What a named command tells in a context with hooks: its start, what is told inside it and, if it
gives a value, its end. -/
structure Dispatched (opening : Opening) (world : World) (ending : Except Halt Value × World) (inner : List Event)
    (opened : List Opening) : Prop where
  unmatched : Event.unmatched [] inner = some opened
  left (halt : Halt) : ending.1 = .error halt →
    ending.2.events.toList = world.events.toList ++ opening.start :: inner
  done (value : Value) : ending.1 = .ok value → opened = [] ∧
    ending.2.events.toList =
      world.events.toList ++ opening.start :: inner ++ [opening.finish (ending.2.heap.contents value)]

private theorem Machine.command_dispatched (setup : Setup) (depth : Nat) {line : Line} {call : Call}
    (named : Call.parse? line = some call) (frame : FrameId) {context : ContextId} {world : World}
    (inside : context < world.contexts.size) {hooks : Hooks} (own : (world.contextAt context).hooks = hooks)
    (starts : hooks.start = some .quiet) (ends : hooks.finish = some .quiet) :
    ∃ inner opened, Dispatched ⟨call.name, String.ofList line⟩ world
      ((level setup depth).command setup line frame context world) inner opened := by
  have paired : (world.contextAt context).hooks.Paired := by
    rw [own]
    exact ⟨starts.trans ends.symm, by rw [starts]; nofun⟩
  have told : announced (world.contextAt context).hooks ((Call.parse? line).map (·.name)) line =
      some ⟨call.name, String.ofList line⟩ := by
    simp [announced,own,starts,named]
  have inner : (Discipline.closing setup).Rel context none
      ((level setup depth).carryOut setup ((level setup depth).enter setup) (Call.parse? line) line
        frame context)
      ((closingLevel setup depth).carryOut setup ((closingLevel setup depth).enter setup) (Call.parse? line)
        line frame context) :=
    (Discipline.closing setup).carryOut (closed_level setup depth).toCalls
      ((Discipline.closing setup).runs_fully id line) (fun _ => trivial) trivial
  obtain ⟨word, opened, done⟩ := inner (world.tell [Opening.start ⟨call.name, String.ofList line⟩]) inside paired
  rcases result : (level setup depth).carryOut setup ((level setup depth).enter setup) (Call.parse? line) line
      frame context
    (world.tell [Opening.start ⟨call.name, String.ofList line⟩]) with ⟨halt | value, after⟩
  · rw [result] at done
    rw [command_left paired told result]
    refine ⟨word, opened, done.unmatched, fun _ _ => ?_, nofun⟩
    rw [done.events,World.tell_events,List.append_assoc]
    rfl
  · rw [result] at done
    rw [command_done paired told result (done.hooks context inside)]
    refine ⟨word, opened, done.unmatched, nofun, fun _ same => ⟨done.complete value rfl, ?_⟩⟩
    cases same
    rw [World.tell_events,done.events,World.tell_events,List.append_assoc _ [_] word]
    rfl

/-- Lifecycle events are well bracketed, in every run whose hooks for starts and ends are there and do
not fail. Every end belongs to the latest open start and has its name and its line. A run that is not
stopped leaves nothing open. A stopped one leaves open exactly the commands that it was in, which is what
the machine closes that tells the end of commands also when they are left early; with these ends the
word is complete. Every named command tells its start, and its end if it gives a value. -/
theorem lifecycle_events_are_bracketed (setup : Setup) :
    (∀ source options (world : World), options.hooks.start = some .quiet → options.hooks.finish = some .quiet →
      ∃ word opened errors, Lifecycle world (execute setup source options world)
        ((Machine.closingLevel setup Machine.levels).run source options world) word opened errors) ∧
    ∀ depth line call frame context (world : World), Call.parse? line = some call →
      context < world.contexts.size →
      (world.contextAt context).hooks.start = some .quiet → (world.contextAt context).hooks.finish = some .quiet →
      ∃ inner opened, Dispatched ⟨call.name, String.ofList line⟩ world
        ((Machine.level setup depth).command setup line frame context world) inner opened := by
  refine ⟨fun source options world starts ends => ?_, fun depth line call frame context world named inside starts
    ends => ?_⟩
  · have paired : options.hooks.Paired := ⟨starts.trans ends.symm, by rw [starts]; nofun⟩
    exact Machine.run_closed setup Machine.outermost source paired world
  · exact Machine.command_dispatched setup depth named frame inside rfl starts ends

/-- A run that stops for want of a dependency is in two commands, one inside the other. -/
theorem lifecycle_events_are_bracketed_nested :
    (∃ word opened errors, Lifecycle {}
      (execute {} "injiza(injiza('x'))" { hooks := { start := some .quiet, finish := some .quiet } } {})
      ((Machine.closingLevel {} Machine.levels).run "injiza(injiza('x'))"
        { hooks := { start := some .quiet, finish := some .quiet } } {}) word opened errors) ∧
    Event.unmatched []
      (execute {} "injiza(injiza('x'))"
        { hooks := { start := some .quiet, finish := some .quiet } } {}).2.events.toList =
        some [⟨"injiza", "injiza('x')"⟩, ⟨"injiza", "injiza(injiza('x'))"⟩] :=
  ⟨(lifecycle_events_are_bracketed {}).1 _ _ {} rfl rfl, by decide +kernel⟩

/-- A command of the host that has a further script run: the fault is that of a named command inside, but runs inside
others have no hooks, so only the outer command is left open. -/
theorem nested_commands_are_not_told :
    let host : Host := { Host.bare with handler := fun _ _ => .run "g()" {} fun _ => .done .null }
    let hooks : Hooks := { start := some .quiet, finish := some .quiet }
    let ended := execute { host } "inner()" { commands := .ofList [("inner", "inner")], hooks } {}
    (Call.parse? "g()".toList).map (·.name) = some "g" ∧
      ended.1 = .error (.fault ⟨.unknownCommand "g", some "g()"⟩) ∧
      Event.unmatched [] ended.2.events.toList = some [⟨"inner", "inner()"⟩] := by
  intro host hooks ended
  exact ⟨by decide, eq_error_of_stoppedBy (by decide +kernel), by decide +kernel⟩

end Inyandiko
