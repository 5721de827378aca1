import Inyandiko.Proofs.Accord
import Inyandiko.Proofs.Lifecycle
import Inyandiko.Proofs.Pieces

/-! The lines of faults. A machine that tells the start and the end of every statement leaves a trail in
which the statements that were under way when a run was stopped are open, the innermost one last. It does
the same as the machine that tells nothing. A fault that stops a run has the line of the innermost open
statement, or, if that statement is malformed, one of the lines that were looked at to read it; and in any
case a piece of a line of the script. -/
namespace Inyandiko

open Source

variable {α β : Type}

/-- How a statement is told: by its line, under the lines after it. -/
def Statement.Place.opening (place : Statement.Place) : Opening where
  name := "\n".intercalate (place.following.map String.ofList)
  line := String.ofList place.line

namespace Machine

/-- Does the work of a statement and tells its start and its end; the end is not told if the statement is
left early. -/
def tracing (place : Statement.Place) (work : Exec α) : Exec α := do
  Exec.record place.opening.start
  let value ← located place.line work
  Exec.record (place.opening.finish .null)
  return value

private theorem tracing_run (place : Statement.Place) (work : Exec α) (world : World) :
    tracing place work world =
      let inner := work (world.tell [place.opening.start])
      match inner.1 with
      | .ok value => (.ok value, inner.2.tell [place.opening.finish .null])
      | .error halt => (.error (locate place.line halt), inner.2) := by
  have recorded (event : Event) (world : World) : Exec.record event world = (.ok (), world.tell [event]) := by
    simp only [Exec.record,World.tell,Array.push_eq_append]
    rfl
  simp only [tracing,Exec.bind_run,recorded,located_run]
  cases (work (world.tell [place.opening.start])).1 <;> rfl

/-- Runs the statements at some places up to the first return, and tells of each of them. -/
def tracedItems (run : Statement → Exec (Option Value)) : List Statement.Place → Exec (Option Value)
  | [] => return none
  | place :: rest => do
    let signal ← tracing place
      (match place.item.statement with
        | .error fault => throw (.fault fault)
        | .ok statement => run statement)
    match signal with
    | some value => return some value
    | none => tracedItems run rest

/-- Runs the statements of a block of lines, and tells of each of them. -/
def tracedBlock (setup : Setup) (machine : Machine) (lines : List Line) (frame : FrameId) (context : ContextId) :
    Exec (Option Value) :=
  tracedItems (machine.statement setup frame context) (Statement.places lines)

/-- The machine of a level that tells of every statement. -/
def traced (setup : Setup) : Nat → Machine := levelOf setup id (tracedBlock setup)

end Machine

/-- A fault of the statement at a place of a script: it has the statement's line, or the statement is
malformed and the line is one of those that were looked at to read it. -/
structure Fault.PlacedAt (script : List Line) (place : Statement.Place) (fault : Fault) (text : Line) : Prop where
  line : fault.line = some (String.ofList text)
  piece : Piece script text
  source : text = place.line ∨
    Statement.read place.line place.following = .error fault ∧
      Statement.Examines place.line place.following text

namespace Halt

/-- The halt of an open statement: if it is a fault, it has its line from there. -/
def BlamedOn (script : List Line) (opening : Opening) : Halt → Prop
  | .fault raised => ∃ place text, opening = place.opening ∧ raised.PlacedAt script place text
  | .tooDeep => False
  | _ => True

/-- The line that a halt has, if it is a fault that has one. -/
def line? : Halt → Option String
  | .fault raised => raised.line
  | _ => none

/-- What a statement runs into itself, before its faults are given its line. -/
def OwnTo (line : Line) (halt : Halt) : Prop := ∀ text, halt.line? = some text → text = String.ofList line

/-- What a block runs into itself, not one of its statements: no fault. -/
def Beyond : Halt → Prop
  | .fault _ | .tooDeep => False
  | _ => True

private theorem ownTo_of_unplaced {halt : Halt} (unplaced : halt.line? = none) (line : Line) : halt.OwnTo line := by
  intro text placed
  rw [unplaced] at placed
  cases placed

private theorem Beyond.ownTo {halt : Halt} (beyond : halt.Beyond) (line : Line) : halt.OwnTo line := by
  cases halt with
  | fault fault => exact beyond.elim
  | _ => exact ownTo_of_unplaced rfl line

variable {script : List Line} {place : Statement.Place}

private theorem OwnTo.blamedOn {halt : Halt} (own : halt.OwnTo place.line) (piece : Piece script place.line) :
    (Machine.locate place.line halt).BlamedOn script place.opening := by
  cases halt with
  | fault fault =>
    refine ⟨place, place.line, rfl, ?_, piece, .inl rfl⟩
    cases found : fault.line with
    | none => simp [Fault.locate,found]
    | some text => simp [Fault.locate,found,own text found]
  | tooDeep => exact ⟨place, place.line, rfl, rfl, piece, .inl rfl⟩
  | _ => trivial

private theorem BlamedOn.locate {halt : Halt} {opening : Opening} (blamed : halt.BlamedOn script opening)
    (line : Line) :
    (Machine.locate line halt).BlamedOn script opening := by
  cases halt with
  | fault fault =>
    obtain ⟨inner, text, same, placed⟩ := blamed
    have kept : fault.locate (String.ofList line) = fault := by
      have found := placed.line
      cases fault
      simp_all [Fault.locate]
    exact ⟨inner, text, same, kept.symm ▸ placed⟩
  | tooDeep => exact blamed.elim
  | _ => trivial

/-- A malformed statement is refused at a line that was looked at, or else gets its own line. -/
private theorem blamedOn_malformed {fault : Fault} (refused : Statement.read place.line place.following = .error fault)
    (piece : Piece script place.line) (pieces : Pieces script place.following) :
    (Machine.locate place.line (.fault fault)).BlamedOn script place.opening := by
  cases found : fault.line with
  | none =>
    have unplaced : (Halt.fault fault).line? = none := found
    exact (ownTo_of_unplaced unplaced place.line).blamedOn piece
  | some text =>
    obtain ⟨line, looked, rfl⟩ := (Refuses.statement place.line place.following fault refused).2 text found
    have kept : fault.locate (String.ofList place.line) = fault := by
      cases fault
      simp_all [Fault.locate]
    exact ⟨place, line, rfl, kept.symm ▸ ⟨found, looked.piece piece pieces, .inr ⟨refused, looked⟩⟩⟩

end Halt

/-- The context of a script without hooks and commands of the host: the bodies of its functions are made
of pieces of the script. -/
structure Context.Scripted (script : List Line) (run : Context) : Prop where
  commands : run.commands = .empty
  hooks : run.hooks = {}
  bodies : ∀ name function, run.functions.get? name = some function → Pieces script function.body

/-- What becomes of a computation that leaves a word of events and some open statements behind it. Nothing
is left open by what comes to its end; what is not is either its own halt or that of an open statement. -/
structure Leaves (Own : Halt → Prop) (script : List Line) (context : ContextId) (ending : Except Halt α × World)
    (word : List Event) (opened : List Opening) : Prop where
  unmatched : Event.unmatched [] word = some opened
  complete (value : α) : ending.1 = .ok value → opened = []
  own (halt : Halt) : ending.1 = .error halt → opened = [] → Own halt
  inner (halt : Halt) : ending.1 = .error halt → ∀ opening outer, opened = opening :: outer →
    halt.BlamedOn script opening
  scripted : (ending.2.contextAt context).Scripted script

/-- A computation of a script, and another one that does the same and tells of statements. -/
def Trails (Own : Halt → Prop) (script : List Line) (context : ContextId) (plain traced : Exec α) : Prop :=
  ∀ world : World, (world.contextAt context).Scripted script →
    ∃ word opened, Leaves Own script context (plain world) word opened ∧
      ∀ prior, traced (world.tell prior) = ((plain world).1, (plain world).2.tell (prior ++ word))

private theorem Leaves.silent {Own : Halt → Prop} {script : List Line} {context : ContextId}
    {ending : Except Halt α × World} (own : ∀ halt, ending.1 = .error halt → Own halt)
    (scripted : (ending.2.contextAt context).Scripted script) : Leaves Own script context ending [] [] where
  unmatched := rfl
  complete _ _ := rfl
  own halt failed _ := own halt failed
  inner _ _ _ _ wrong := by cases wrong
  scripted := scripted

private theorem Context.Scripted.modify {script : List Line} {context : ContextId} {world : World}
    (known : (world.contextAt context).Scripted script) {change : Context → Context}
    (keeps : ∀ run, run.Scripted script → (change run).Scripted script) :
    (World.contextAt { world with contexts := world.contexts.modify context change } context).Scripted script := by
  simp only [World.contextAt,Array.getElem?_modify,if_pos] at known ⊢
  cases found : world.contexts[context]? with
  | none =>
    rw [found] at known
    exact known
  | some run =>
    rw [found] at known
    exact keeps run known

namespace Trails

variable {Own : Halt → Prop} {script : List Line} {context : ContextId}

private theorem quiet {work : Exec α}
    (blind : ∀ (world : World) prior, work (world.tell prior) = ((work world).1, (work world).2.tell prior))
    (own : ∀ world halt, (work world).1 = .error halt → Own halt)
    (scripted : ∀ world : World, (world.contextAt context).Scripted script →
      ((work world).2.contextAt context).Scripted script) : Trails Own script context work work := by
  intro world known
  refine ⟨[], [], .silent (own world) (scripted world known), fun prior => ?_⟩
  rw [List.append_nil]
  exact blind world prior

private theorem apart {work : Exec α} (apart : work.Apart Own) : Trails Own script context work work := by
  refine quiet (fun world prior => ?_) apart.halts fun world known => ?_
  · have same := apart.blind world world.contexts (world.events ++ prior.toArray)
    rw [World.tell,World.tell,same,apart.events,apart.contexts]
  · rwa [World.contextAt,apart.contexts]

private theorem bind {first first' : Exec α} {next next' : α → Exec β} (head : Trails Own script context first first')
    (tail : ∀ value, Trails Own script context (next value) (next' value)) :
    Trails Own script context (first >>= next) (first' >>= next') := by
  intro world known
  obtain ⟨word, opened, left, run⟩ := head world known
  rcases result : first world with ⟨halt | value, after⟩
  · rw [result] at left run
    refine ⟨word, opened, ?_, fun prior => ?_⟩
    · rw [Exec.bind_run,result]
      exact { left with
        complete := fun value done => by cases done
        own := fun other failed => left.own other (by cases failed; rfl)
        inner := fun other failed => left.inner other (by cases failed; rfl) }
    · rw [Exec.bind_run,Exec.bind_run,run,result]
  · rw [result] at left run
    -- nothing is open when the second one begins
    obtain rfl := left.complete value rfl
    obtain ⟨rest, opened, ended, again⟩ := tail value after left.scripted
    refine ⟨word ++ rest, opened, ?_, fun prior => ?_⟩
    · rw [Exec.bind_run,result]
      refine { ended with unmatched := ?_ }
      rw [Event.unmatched_append,left.unmatched]
      exact ended.unmatched
    · rw [Exec.bind_run,Exec.bind_run,run,result]
      dsimp only
      rw [again,List.append_assoc]

private theorem weaken {Own' : Halt → Prop} (more : ∀ halt, Own halt → Own' halt) {plain traced : Exec α}
    (trails : Trails Own script context plain traced) : Trails Own' script context plain traced := by
  intro world known
  obtain ⟨word, opened, left, run⟩ := trails world known
  exact ⟨word, opened, { left with own := fun halt failed none => more halt (left.own halt failed none) }, run⟩

private theorem modifyContext {change : Context → Context}
    (keeps : ∀ run, run.Scripted script → (change run).Scripted script) :
    Trails Own script context (Exec.modifyContext context change) (Exec.modifyContext context change) :=
  quiet (fun _ _ => rfl) (fun _ _ failed => by cases failed) fun _ known => known.modify keeps

private theorem counted {work work' : Exec α} (inner : Trails Own script context work work') :
    Trails Own script context (Machine.counted context work) (Machine.counted context work') := by
  intro world known
  have deeper : (World.contextAt { world with contexts := world.contexts.modify context Machine.deeper }
      context).Scripted script := known.modify fun run known => ⟨known.commands, known.hooks, known.bodies⟩
  obtain ⟨word, opened, left, run⟩ := inner _ deeper
  refine ⟨word, opened, ?_, fun prior => ?_⟩
  · rw [Machine.counted_run]
    exact { left with
      scripted := left.scripted.modify fun run known => ⟨known.commands, known.hooks, known.bodies⟩ }
  · have told := run prior
    simp only [World.tell] at told ⊢
    rw [Machine.counted_run,Machine.counted_run,told]

private theorem unhooked {work : Exec Unit}
    (silent : ∀ world : World, (world.contextAt context).hooks = {} → work world = (.ok (), world)) :
    Trails Own script context work work := by
  intro world known
  refine ⟨[], [], ?_, fun prior => ?_⟩
  · rw [silent world known.hooks]
    exact .silent (fun _ failed => by cases failed) known
  · rw [silent world known.hooks,silent (world.tell prior) known.hooks,List.append_nil]

private theorem start (name line : String) :
    Trails Own script context
      (do Machine.notify (← Exec.context context).hooks.start "start" (.start name line))
      (do Machine.notify (← Exec.context context).hooks.start "start" (.start name line)) :=
  unhooked fun world none => by
    rw [Exec.bind_run,Exec.context_run]
    dsimp only
    rw [none]
    rfl

private theorem finish (name line : String) (value : Datum) :
    Trails Own script context
      (do Machine.notify (← Exec.context context).hooks.finish "end" (.finish name line value))
      (do Machine.notify (← Exec.context context).hooks.finish "end" (.finish name line value)) :=
  unhooked fun world none => by
    rw [Exec.bind_run,Exec.context_run]
    dsimp only
    rw [none]
    rfl

private theorem stopIfInvalid (allowed : ∀ line, Own (.invalid line)) (value : Value) (line : Line) :
    Trails Own script context (Machine.stopIfInvalid value line context)
      (Machine.stopIfInvalid value line context) := by
  refine quiet (fun world prior => ?_) (fun world halt failed => ?_) fun world known => ?_
  · rw [Machine.stopIfInvalid_run,Machine.stopIfInvalid_run]
    rfl
  · rw [Machine.stopIfInvalid_run] at failed
    dsimp only at failed
    split at failed
    · cases failed
      exact allowed _
    · cases failed
  · rw [Machine.stopIfInvalid_run]
    exact known

/-- A statement that is told of: what it runs into itself gets its line, and what an open statement inside
it ran into is left alone. -/
private theorem tracing {place : Statement.Place} {work work' : Exec α}
    (inner : Trails (fun halt => (Machine.locate place.line halt).BlamedOn script place.opening) script context
      work work') :
    Trails Own script context (Machine.located place.line work) (Machine.tracing place work') := by
  intro world known
  obtain ⟨word, opened, left, run⟩ := inner world known
  have told (prior : List Event) : work' ((world.tell prior).tell [place.opening.start]) =
      ((work world).1, (work world).2.tell (prior ++ place.opening.start :: word)) := by
    rw [World.tell_tell,run,List.append_assoc]
    rfl
  have inside : Event.unmatched [] (place.opening.start :: word) = some (opened ++ [place.opening]) :=
    Event.unmatched_start left.unmatched (some place.opening)
  rw [Machine.located_run]
  rcases result : work world with ⟨halt | value, after⟩
  · rw [result] at left told
    refine ⟨place.opening.start :: word, opened ++ [place.opening], ?_, fun prior => ?_⟩
    · refine ⟨inside, fun _ done => (by cases done), fun _ _ none => (by simp at none), ?_, left.scripted⟩
      intro other failed opening outer first
      cases failed
      cases opened with
      | nil =>
        cases first
        exact left.own halt rfl rfl
      | cons innermost others =>
        cases first
        exact (left.inner halt rfl _ _ rfl).locate place.line
    · rw [Machine.tracing_run,told]
      rfl
  · rw [result] at left told
    obtain rfl := left.complete value rfl
    refine ⟨place.opening.start :: word ++ [place.opening.finish .null], [], ?_, fun prior => ?_⟩
    · refine ⟨?_, fun _ _ => rfl, fun _ failed => (by cases failed), fun _ failed => (by cases failed),
        left.scripted⟩
      rw [Event.unmatched_append,inside]
      exact Event.unmatched_finish [place.opening] .null
    · rw [Machine.tracing_run,told]
      dsimp only
      rw [World.tell_tell,List.append_assoc]
      rfl

private theorem items {run run' : Statement → Exec (Option Value)} {places : List Statement.Place}
    (pieces : ∀ place ∈ places, Piece script place.line ∧ Pieces script place.following)
    (each : ∀ place ∈ places, ∀ statement, place.item.statement = .ok statement →
      Trails (Halt.OwnTo place.line) script context (run statement) (run' statement)) :
    Trails Halt.Beyond script context (Machine.items run (places.map Statement.Place.item))
      (Machine.tracedItems run' places) := by
  induction places with
  | nil => exact apart (.pure none)
  | cons place places ih =>
    obtain ⟨piece, following⟩ := pieces place List.mem_cons_self
    refine bind (tracing ?_) fun signal => ?_
    · cases found : place.item.statement with
      | error fault =>
        -- a malformed statement ends where it is read
        refine apart (.throw (Halt.blamedOn_malformed ?_ piece following))
        cases refused : Statement.read place.line place.following with
        | error other =>
          rw [Statement.Place.item,refused] at found
          cases found
          rfl
        | ok taken =>
          rw [Statement.Place.item,refused] at found
          cases found
      | ok statement =>
        exact (each place List.mem_cons_self statement found).weaken fun halt own => own.blamedOn piece
    · cases signal with
      | some value => exact apart (.pure _)
      | none =>
        exact ih (fun other member => pieces other (List.mem_cons_of_mem _ member))
          fun other member => each other (List.mem_cons_of_mem _ member)

end Trails

/-- A host whose functions and families know nothing of the lines of scripts. -/
structure Host.Unplaced (host : Host) : Prop where
  call (callee : Callee) (args : List Value) (heap : Heap) (halt : Halt) :
    host.call callee args heap = .error halt → halt.line? = none
  family (family : Family) (line : Line) (names : Table Value) (heap : Heap) (halt : Halt) :
    host.family family line names heap = .error halt → halt.line? = none

/-- What a statement of a script does, told or not, if there are neither hooks nor commands of the host. -/
def Accord.trailing (setup : Setup) (host : setup.host.Unplaced) (script : List Line) (line : Line) :
    Accord setup where
  hosted := false
  Rel context _ plain traced := Trails (Halt.OwnTo line) script context plain traced
  Halts := Halt.OwnTo line
  Known := Context.Scripted script
  Body := Pieces script
  fault _ := Halt.ownTo_of_unplaced rfl line
  crash _ := Halt.ownTo_of_unplaced rfl line
  tooDeep := Halt.ownTo_of_unplaced rfl line
  endless := Halt.ownTo_of_unplaced rfl line
  call callee args heap halt failed := Halt.ownTo_of_unplaced (host.call callee args heap halt failed) line
  family family written names heap halt failed :=
    Halt.ownTo_of_unplaced (host.family family written names heap halt failed) line
  handler hosted := by cases hosted
  plain _ _ known := known.commands
  apart := .apart
  bind := .bind
  context {context} _ _ _ _ tail := fun world known => tail (world.contextAt context) known world known
  adjust adjusts := .modifyContext fun run known => by
    obtain ⟨results, exports, functions, same, bodies⟩ := adjusts.keeps run
    rw [same]
    refine ⟨known.commands, known.hooks, fun name function found => ?_⟩
    rcases bodies name function found with old | body
    · exact known.bodies name function old
    · exact body
  counted := .counted
  start := .start
  finish := .finish
  stopIfInvalid := .stopIfInvalid fun _ => Halt.ownTo_of_unplaced rfl line
  session hosted := by cases hosted

namespace Machine

variable {setup : Setup} (host : setup.host.Unplaced) (script : List Line)

private theorem block_trails {depth : Nat}
    (below : ∀ line, (Accord.trailing setup host script line).conduct.Agree (fun _ => True) (Pieces script)
      (level setup depth) (traced setup depth))
    {lines : List Line} (pieces : Pieces script lines) (frame : FrameId) (context : ContextId) :
    Trails Halt.Beyond script context ((level setup (depth + 1)).block lines frame context)
      ((traced setup (depth + 1)).block lines frame context) := by
  have split : Statement.items lines = (Statement.places lines).map Statement.Place.item :=
    Statement.items_eq_places lines
  change Trails _ _ _ (items _ (Statement.items lines)) (tracedItems _ (Statement.places lines))
  rw [split]
  refine .items (fun place member => Statement.pieces_places pieces member) fun place member statement found => ?_
  -- what the statement itself does is its own, what it has inside is left to the level below
  let A := Accord.trailing setup host script place.line
  obtain ⟨rest, read⟩ : ∃ rest, Statement.read place.line place.following = .ok (statement, rest) := by
    cases read : Statement.read place.line place.following with
    | error fault =>
      rw [Statement.Place.item,read] at found
      cases found
    | ok taken =>
      rw [Statement.Place.item,read] at found
      cases found
      exact ⟨taken.2, rfl⟩
  have drawn := Statement.drawn_read (Statement.pieces_places pieces member).2 read
  rw [statement_eq,statement_eq]
  refine A.conduct.statementBy (below place.line).toBlocks trivial (fun _ _ => trivial)
    (fun block among => ?_) fun line same => ?_
  · have code : (level setup depth).code = id := code_levelOf setup id (linesBlock setup) depth
    rw [code]
    exact drawn.blocks block among
  · refine A.conduct.command (below place.line) A.tells (A.conduct.runs_fully id line) (fun _ => ?_) trivial
    rintro _ ⟨⟩
    rw [drawn.command line same]

private theorem trails_level (depth : Nat) (line : Line) :
    (Accord.trailing setup host script line).conduct.Agree (fun _ => True) (Pieces script)
      (level setup depth) (traced setup depth) := by
  have code (depth : Nat) (lines : List Line) : (level setup depth).code lines = (traced setup depth).code lines := by
    rw [level,traced,code_levelOf,code_levelOf]
  induction depth generalizing line with
  | zero =>
    let A := Accord.trailing setup host script line
    exact A.agree_unhosted rfl (fun _ known => known.bodies) (code 0) (fun _ _ _ _ => A.apart (.throw A.tooDeep))
      fun _ _ _ => A.apart (.throw A.tooDeep)
  | succ depth ih =>
    let A := Accord.trailing setup host script line
    refine A.agree_unhosted rfl (fun _ known => known.bodies) (code (depth + 1)) ?_ ?_
    · intro lines pieces frame context
      exact (block_trails host script ih pieces frame context).weaken fun _ beyond => beyond.ownTo line
    · intro token frame context
      have evaluated : A.conduct.Rel context none ((level setup (depth + 1)).token token frame context)
          ((traced setup (depth + 1)).token token frame context) :=
        A.conduct.evaluateToken (ih line) A.tells (A.conduct.runs_fully id _) trivial
      exact evaluated

private theorem conclude_tell_unhooked (root : FrameId) (context : ContextId) (outcome : Except Halt (Option Value))
    (world : World) (word : List Event) :
    conclude {} root context outcome (world.tell word) =
      ((conclude {} root context outcome world).1, (conclude {} root context outcome world).2.tell word) := by
  rcases outcome with halt | signal
  · cases halt <;> rfl
  · rfl

private theorem run_traced (source : String) (options : RunOptions) (world : World) :
    (traced setup levels).run source options world =
      let lines := Source.lines source.toList
      session options ((traced setup outermost).block lines)
        (world.logged s!"run started: {lines.length} logical lines") :=
  run_levelOf setup id (tracedBlock setup) outermost source options world

end Machine

private theorem Trails.session {script : List Line} {work work' : FrameId → ContextId → Exec (Option Value)}
    (inner : ∀ root context, Trails Halt.Beyond script context (work root context) (work' root context))
    {options : RunOptions} (plain : options.commands = .empty) (hookless : options.hooks = {}) (world : World) :
    ∃ word, Machine.session options work' world =
        ((Machine.session options work world).1, (Machine.session options work world).2.tell word) ∧
      ∀ fault, (Machine.session options work world).1 = .error (.fault fault) →
        ∃ place outer text, Event.unmatched [] word = some (place.opening :: outer) ∧
          fault.PlacedAt script place text := by
  have own : ((world.opened options).contextAt world.contexts.size).Scripted script := by
    rw [World.contextAt_opened,if_pos rfl]
    exact ⟨plain, hookless, fun _ _ found => by cases found⟩
  obtain ⟨word, opened, left, run⟩ := inner world.scopes.frames.size world.contexts.size (world.opened options) own
  have told := run []
  rw [World.tell_nil,List.nil_append] at told
  refine ⟨word, ?_, fun fault failed => ?_⟩
  · rw [Machine.session_run,Machine.session_run,told,hookless]
    exact Machine.conclude_tell_unhooked _ _ _ _ word
  · rw [Machine.session_run,hookless] at failed
    have raised := (Machine.conclude_error failed).1
    cases opened with
    | nil => exact (left.own _ raised rfl).elim -- blocks have no faults but those of statements
    | cons opening outer =>
      obtain ⟨place, text, rfl, placed⟩ := left.inner _ raised opening outer rfl
      exact ⟨place, outer, text, left.unmatched, placed⟩

/-- Every fault has its line. A run without hooks and commands of the host goes as on the machine that
tells of statements. If it is stopped by a fault, then a statement is open in what that machine told, and
the fault has the line of the innermost one; or that statement is malformed, and the line is one that was
looked at to read it: its header, the line that closes a block of it, or that of its alternative. The line
is always a trimmed piece of one of the lines of the script. -/
theorem faults_have_their_line (setup : Setup) (host : setup.host.Unplaced) (source : String)
    (options : RunOptions) (plain : options.commands = .empty) (hookless : options.hooks = {}) (world : World) :
    ∃ word, (Machine.traced setup Machine.levels).run source options world =
        ((execute setup source options world).1, (execute setup source options world).2.tell word) ∧
      ∀ fault, (execute setup source options world).1 = .error (.fault fault) →
        ∃ place outer text, Event.unmatched [] word = some (place.opening :: outer) ∧
          fault.PlacedAt (Source.lines source.toList) place text := by
  rw [execute_run,Machine.run_traced]
  refine Trails.session (fun root context => ?_) plain hookless _
  exact Machine.block_trails host _ (Machine.trails_level host _ _) (pieces_lines source.toList) root context

private theorem Halt.Simple.unplaced {halt : Halt} (simple : halt.Simple) : halt.line? = none := by
  cases simple <;> rfl

private theorem Kit.unplaced : Kit.host.Unplaced where
  call callee args heap halt failed := (Kit.fails_simply.call callee args heap halt failed).unplaced
  family family line names heap halt failed :=
    (Kit.fails_simply.family family line names heap halt failed).unplaced

/-- An unknown command on the line that closes a loop inside a function, and text after a block. -/
theorem faults_have_their_line_closing :
    let setup : Setup := { host := Kit.host }
    let source := "umukoro f(x) \x7b\nsubiramo(2) \x7b\ng(x) \x7d\n\x7d\nf(1)"
    let malformed := "niba (1 == 1) \x7b\nandika(1)\n\x7d x"
    setup.host.Unplaced ∧
    (∃ fault place outer text word, (execute setup source {} {}).1 = .error (.fault fault) ∧
      Event.unmatched [] word = some (place.opening :: outer) ∧
      (place.opening :: outer).map (·.line) = ["g(x)", "subiramo(2) \x7b", "f(1)"] ∧
      fault.PlacedAt (Source.lines source.toList) place text ∧ fault.line = some "g(x)") ∧
    ∃ fault place outer text word, (execute setup malformed {} {}).1 = .error (.fault fault) ∧
      Event.unmatched [] word = some (place.opening :: outer) ∧
      (place.opening :: outer).map (·.line) = ["niba (1 == 1) \x7b"] ∧
      fault.PlacedAt (Source.lines malformed.toList) place text ∧ fault.line = some "\x7d x" := by
  intro setup source malformed
  have stopped {text line : String} {trail : List String}
      (raised : (((execute setup text {} {}).1.map fun _ => none).tryCatch fun halt => .ok halt.line?).toOption =
        some (some line))
      (silent : (execute setup text {} {}).2.events.size = 0)
      (told : (Event.unmatched [] ((Machine.traced setup Machine.levels).run text {} {}).2.events.toList).map
        (·.map (·.line)) = some trail) :
      ∃ fault place outer text' word, (execute setup text {} {}).1 = .error (.fault fault) ∧
        Event.unmatched [] word = some (place.opening :: outer) ∧ (place.opening :: outer).map (·.line) = trail ∧
        fault.PlacedAt (Source.lines text.toList) place text' ∧ fault.line = some line := by
    obtain ⟨word, same, placed⟩ := faults_have_their_line setup Kit.unplaced text {} rfl rfl {}
    rw [same,World.tell_events,Array.eq_empty_of_size_eq_zero silent] at told
    cases ending : (execute setup text {} {}).1 with
    | ok record =>
      rw [ending] at raised
      cases raised
    | error halt =>
      rw [ending] at raised
      cases halt with
      | fault fault =>
        obtain ⟨place, outer, text', open', at'⟩ := placed fault ending
        refine ⟨fault, place, outer, text', word, rfl, open', ?_, at', Option.some.inj raised⟩
        rw [show (#[] : Array Event).toList ++ word = word from rfl,open'] at told
        exact Option.some.inj told
      | _ => cases raised
  exact ⟨Kit.unplaced, stopped (by decide +kernel) (by decide +kernel) (by decide +kernel),
    stopped (by decide +kernel) (by decide +kernel) (by decide +kernel)⟩

/-- A function of the host may raise a fault that has a line already; the fault keeps it, although no line of the
script has that text. And the line that was looked at last need not be malformed itself: an else header may be
blamed for a block that is not closed. -/
theorem carried_lines_are_kept :
    let fault : Fault := ⟨.emptyToken, some "n = 1"⟩
    let setup : Setup := { host := { Host.bare with call := fun _ _ => throw (.fault fault) } }
    let world : World := { heap := { objects := #[.function "f" none .empty] } }
    let unclosed := "niba (1 == 1) \x7b\nandika(1)\n\x7d\nniba_atariyo \x7b\nandika(2)"
    (execute setup "koresha(f)" { vars := .ofList [("f", .ref 0)] } world).1 = .error (.fault fault) ∧
      ¬Piece (Source.lines "koresha(f)".toList) "n = 1".toList ∧
      (execute {} unclosed {} {}).1 =
        .error (.fault ⟨.unclosedBlock "niba_atariyo \x7b", some "niba_atariyo \x7b"⟩) ∧
      isElseHeader "niba_atariyo \x7b".toList = true := by
  refine ⟨eq_error_of_stoppedBy (by decide +kernel), fun piece => ?_, eq_error_of_stoppedBy (by decide +kernel),
    by decide⟩
  have absent : ∀ line ∈ Source.lines "koresha(f)".toList, ¬"n = 1".toList <:+: line := by decide +kernel
  obtain ⟨line, member, inside⟩ := piece.inside
  exact absent line member inside

end Inyandiko
