import Inyandiko.Proofs.Accord
import Inyandiko.Runner

/-! Batches of scripts. A runner runs scripts in order, each with its options merged in the world that
the scripts before it have left, up to the first one that a validation stops. If runs are not to stop at
failed validations, no script of a batch is stopped: within such a run a validation ends other runs at
most, those inside it, and these only give their own records. -/
namespace Inyandiko

open Source

variable {α β : Type}

/-- A halt other than the end of a run by a validation. -/
def Halt.Proper (halt : Halt) : Prop := ∀ line, halt ≠ .invalid line

private theorem Halt.Proper.locate {halt : Halt} (proper : halt.Proper) (line : Line) :
    (Machine.locate line halt).Proper := by
  cases halt with
  | invalid line => exact absurd rfl (proper line)
  | _ => simp [Machine.locate,Halt.Proper]

/-- A computation that leaves it to contexts whether they stop at failed validations, and that is not
ended by one itself where its context does not. -/
structure GoesOn (context : ContextId) (world : World) (ending : Except Halt α × World) : Prop where
  contexts : world.contexts.size ≤ ending.2.contexts.size
  stops : ∀ id < world.contexts.size, (ending.2.contextAt id).stopOnInvalid = (world.contextAt id).stopOnInvalid
  proper : (world.contextAt context).stopOnInvalid = false → ∀ halt, ending.1 = .error halt → halt.Proper

/-- Computations that go on where their context does not stop. -/
def GoingOn (context : ContextId) (work : Exec α) : Prop :=
  ∀ world : World, context < world.contexts.size → GoesOn context world (work world)

namespace GoingOn

variable {context : ContextId}

private theorem still {work : Exec α} (contexts : ∀ world, (work world).2.contexts.size = world.contexts.size)
    (stops : ∀ world id, ((work world).2.contextAt id).stopOnInvalid = (world.contextAt id).stopOnInvalid)
    (proper : ∀ world, (world.contextAt context).stopOnInvalid = false →
      ∀ halt, (work world).1 = .error halt → halt.Proper) : GoingOn context work :=
  fun world _ => ⟨Nat.le_of_eq (contexts world).symm, fun id _ => stops world id, proper world⟩

private theorem apart {work : Exec α} (apart : work.Apart Halt.Proper) : GoingOn context work :=
  still (fun world => by rw [apart.contexts])
    (fun world id => by rw [World.contextAt,World.contextAt,apart.contexts]) fun world _ => apart.halts world

private theorem bind {first : Exec α} {next : α → Exec β} (head : GoingOn context first)
    (tail : ∀ value, GoingOn context (next value)) : GoingOn context (first >>= next) := by
  intro world inside
  have begun := head world inside
  rw [Exec.bind_run]
  generalize first world = ending at begun ⊢
  obtain ⟨halt | value, after⟩ := ending
  · exact ⟨begun.contexts, begun.stops, fun off other failed => begun.proper off other (by cases failed; rfl)⟩
  · have ended := tail value after (Nat.lt_of_lt_of_le inside begun.contexts)
    exact ⟨Nat.le_trans begun.contexts ended.contexts,
      fun id old => (ended.stops id (Nat.lt_of_lt_of_le old begun.contexts)).trans (begun.stops id old),
      fun off => ended.proper ((begun.stops context inside).trans off)⟩

private theorem modifyContext {change : Context → Context}
    (keeps : ∀ run, (change run).stopOnInvalid = run.stopOnInvalid) :
    GoingOn context (Exec.modifyContext context change) :=
  still (fun _ => Array.size_modify)
    (fun world id => World.view_modify (·.stopOnInvalid) world context id change keeps)
    fun _ _ _ failed => by cases failed

private theorem notify (hook : Option HookMode) (slot : String) (event : Event) :
    GoingOn context (Machine.notify hook slot event) := by
  have record : GoingOn context (Exec.record event) :=
    still (fun _ => rfl) (fun _ _ => rfl) fun _ _ _ failed => by cases failed
  rcases hook with _ | _ | _
  · exact apart (.pure ())
  · exact record
  · exact bind record fun _ => apart (.throw (by simp [Halt.Proper]))

private theorem stopIfInvalid (value : Value) (line : Line) :
    GoingOn context (Machine.stopIfInvalid value line context) := by
  -- the only place where a run is ended by a validation
  refine still (fun world => ?_) (fun world id => ?_) fun world off halt failed => ?_
  all_goals rw [Machine.stopIfInvalid_run] at *
  simp [off] at failed

private theorem located (line : Line) {work : Exec α} (inner : GoingOn context work) :
    GoingOn context (Machine.located line work) := by
  intro world inside
  have ended := inner world inside
  rw [Machine.located_run]
  refine ⟨ended.contexts, ended.stops, fun off halt failed => ?_⟩
  cases raised : (work world).1 with
  | ok value => rw [raised] at failed; cases failed
  | error other =>
    rw [raised] at failed
    cases failed
    exact (ended.proper off other raised).locate line

private theorem counted {work : Exec α} (inner : GoingOn context work) :
    GoingOn context (Machine.counted context work) := by
  intro world inside
  have deeper (id : ContextId) :=
    World.view_modify (·.stopOnInvalid) world context id Machine.deeper fun _ => rfl
  have ended := inner { world with contexts := world.contexts.modify context Machine.deeper }
    (by rwa [Array.size_modify])
  rw [Machine.counted_run]
  dsimp only
  generalize work { world with contexts := world.contexts.modify context Machine.deeper } = ending at ended ⊢
  have shallower (id : ContextId) :=
    World.view_modify (·.stopOnInvalid) ending.2 context id Machine.shallower fun _ => rfl
  have sized := ended.contexts
  rw [Array.size_modify] at sized
  refine ⟨by rwa [Array.size_modify], fun id old => ?_, fun off => ended.proper ((deeper context).trans off)⟩
  exact (shallower id).trans ((ended.stops id (by rwa [Array.size_modify])).trans (deeper id))

/-- A run inside another one gives a record when a validation ends it, whether it is to stop or not. -/
private theorem session {options : RunOptions} (hookless : options.hooks = {})
    {work : FrameId → ContextId → Exec (Option Value)}
    (inner : ∀ root context, GoingOn context (work root context)) :
    GoingOn context (Machine.session options work) := by
  intro world inside
  have ended := inner world.scopes.frames.size world.contexts.size (world.opened options) (by simp [World.opened])
  rw [Machine.session_run,hookless]
  dsimp only
  generalize work world.scopes.frames.size world.contexts.size (world.opened options) = result at ended ⊢
  obtain ⟨log, events, left⟩ :=
    Machine.conclude_world {} world.scopes.frames.size world.contexts.size result.1 result.2
  refine ⟨?_, fun id old => ?_, fun _ halt failed => (Machine.conclude_error failed).2⟩
  · rw [left]
    exact Nat.le_trans (by simp [World.opened]) ended.contexts
  · have older : id < (world.opened options).contexts.size := by
      rw [World.opened,Array.size_push]
      exact Nat.lt_succ_of_lt old
    rw [left]
    refine (ended.stops id older).trans ?_
    rw [World.contextAt_opened,if_neg (Nat.ne_of_lt old)]

end GoingOn

namespace Options

theorem overridden_whole {heap : Heap} {base : Options} {name : String} (whole : name ∉ mergedNames)
    (setting : Setting) : overridden heap base name setting = .ok setting := by
  have unlisted : mergedNames.contains name = false := by simpa using whole
  unfold overridden
  split
  · rfl
  · rw [unlisted]
    rfl

private theorem get?_mergeEntries {heap heap' : Heap} {base one two one' two' : Options}
    {entries : List (String × Setting)}
    {name : String} (whole : name ∉ mergedNames) (same : one.get? name = two.get? name)
    (merged : mergeEntries heap base one entries = .ok one')
    (other : mergeEntries heap' base two entries = .ok two') : one'.get? name = two'.get? name := by
  induction entries generalizing one two with
  | nil =>
    cases merged
    cases other
    exact same
  | cons entry entries ih =>
    obtain ⟨setting, given, merged⟩ := ok_of_bind merged
    obtain ⟨setting', given', other⟩ := ok_of_bind other
    refine ih ?_ merged other
    rw [Table.get?_insert,Table.get?_insert]
    split
    · rename_i here
      rw [here] at whole
      rw [overridden_whole whole] at given given'
      cases given
      cases given'
      rfl
    · exact same

private theorem get?_merge {heap heap' : Heap} {base overrides one two : Options} (name : String)
    (whole : name ∉ mergedNames) (merged : merge heap base overrides = .ok one)
    (other : merge heap' base overrides = .ok two) : one.get? name = two.get? name :=
  get?_mergeEntries whole rfl merged other

end Options

/-- A script that a runner has run: its options are merged and settled in the world at hand. -/
def Runner.Ran (runner : Runner) (overrides : Options) (source : String) (world : World) (record : Record)
    (after : World) : Prop :=
  ∃ merged options, Options.merge world.heap runner.options overrides = .ok merged ∧
    merged.toRun world.heap runner.surface = .ok options ∧
    Inyandiko.execute runner.setup source options world = (.ok record, after)

namespace Runner

variable {runner : Runner} {overrides : Options}

/-- The worlds of a batch: the one it begins in, and those after it. -/
def preceded (world : World) (later : Nat → World) : Nat → World
  | 0 => world
  | count + 1 => later count

/-- The course of a batch of scripts, in the worlds between them: each record is that of a script that was
run in the world its predecessors left, all but the last one are of runs that no validation stopped, and
scripts are left out only if the last one is not. -/
structure Course (runner : Runner) (overrides : Options) (sources : List String) (records : List Record)
    (worlds : Nat → World) (after : World) : Prop where
  ran (count : Nat) (record : Record) : records[count]? = some record →
    ∃ source, sources[count]? = some source ∧
      runner.Ran overrides source (worlds count) record (worlds (count + 1))
  left : ∃ log, after = { worlds records.length with log }
  bounded : records.length ≤ sources.length
  fine : ∀ record ∈ records.dropLast, record.ok = true
  short : records.length < sources.length → ∃ record, records.getLast? = some record ∧ record.ok = false

namespace Course

private theorem nil (world : World) : Course runner overrides [] [] (fun _ => world) world where
  ran _ _ found := by simp at found
  left := ⟨world.log, rfl⟩
  bounded := Nat.le_refl _
  fine _ member := by simp at member
  short fewer := absurd fewer (Nat.lt_irrefl _)

variable {source : String} {sources : List String} {world middle after : World} {record : Record}

private theorem stopped (ran : runner.Ran overrides source world record middle) (failed : record.ok = false)
    (log : Array LogEntry) :
    Course runner overrides (source :: sources) [record] (preceded world fun _ => middle) { middle with log } where
  ran count other found := by
    cases count with
    | zero =>
      cases found
      exact ⟨source, rfl, ran⟩
    | succ count => simp at found
  left := ⟨log, rfl⟩
  bounded := Nat.le_add_left _ _
  fine _ member := by simp at member
  short _ := ⟨record, rfl, failed⟩

private theorem cons {records : List Record} {worlds : Nat → World}
    (ran : runner.Ran overrides source world record middle) (fine : record.ok = true)
    (rest : Course runner overrides sources records worlds after) (begun : worlds 0 = middle) :
    Course runner overrides (source :: sources) (record :: records) (preceded world worlds) after where
  ran count other found := by
    cases count with
    | zero =>
      cases found
      subst begun
      exact ⟨source, rfl, ran⟩
    | succ count => exact rest.ran count other found
  left := rest.left
  bounded := Nat.succ_le_succ rest.bounded
  fine other member := by
    cases records with
    | nil => simp at member
    | cons next records =>
      rcases List.mem_cons.1 member with rfl | later
      · exact fine
      · exact rest.fine other later
  short fewer := by
    obtain ⟨last, found, failed⟩ := rest.short (Nat.lt_of_succ_lt_succ fewer)
    exact ⟨last, by rw [List.getLast?_cons,found]; rfl, failed⟩

end Course

end Runner

private theorem Kit.proper : Kit.host.FailsBy Halt.Proper :=
  fails_simply.imp fun halt simple => by cases simple <;> simp [Halt.Proper,Halt.ofCause]

end Inyandiko
