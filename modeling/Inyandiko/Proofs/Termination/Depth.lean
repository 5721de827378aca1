import Inyandiko.Proofs.Likeness.Coupling
import Inyandiko.Proofs.Termination.Size

/-! How deep runs are nested. A machine may stand on any other one at the bottom. Every block and every
token leaves smaller ones to the machine below, and a call starts again from the size of the whole text
with one call less to go, so from some level on it makes no difference what stands at the bottom. -/
namespace Inyandiko

open Source

/-- The likeness of heaps that are the same. -/
def Likeness.exact (host : Host) : Likeness host :=
  .ofEq host (fun _ => True) (fun _ => trivial) trivial (fun _ => trivial) fun _ _ _ _ _ => trivial

/-- The coupling of runs without commands of the host on the same heap. -/
def Coupling.exact (setup : Setup) (Known : Context → Prop) (Body : List Line → Prop)
    (Excused : Halt → Prop)
    (excused : ∀ line halt, Excused halt → Excused (Machine.locate line halt))
    (results : ∀ run results, Known run → Known { run with results })
    (exports : ∀ run exports, Known run → Known { run with exports })
    (functions : ∀ run name function, Known run → Body function.body →
      Known { run with functions := run.functions.insert name function })
    (plain : ∀ run, Known run → run.commands = .empty) : Coupling setup where
  toLikeness := .exact setup.host
  hosted := false
  Known
  present := true
  Body
  Excused
  fine _ := trivial
  endless := trivial
  invalid _ := trivial
  located _ := trivial
  excused given := excused _ _ given
  failing _ _ _ := trivial
  results known found := results _ found known
  exports known found := exports _ found known
  functions known name _ fine := functions _ name _ known fine
  plain _ _ known := plain _ known
  family _ line names := by
    rintro heap _ rfl
    rw [HeapM.YieldsAt]
    cases setup.host.family _ line names heap with
    | ok result => exact ⟨.ok result.1 rfl, fun _ _ _ _ _ => trivial⟩
    | error halt => exact ⟨.error trivial, fun _ _ done => by cases done⟩
  unreachable _ := trivial
  problem _ _ _ := trivial
  answers _ _ _ alike object := by
    change _ = _ at alike
    rw [alike]
    rfl
  blind hosted := nomatch hosted
  free hosted := nomatch hosted

/-- Nothing is left to differ between results on the same heap. -/
theorem Coupling.Same.eq {setup : Setup} {K : Coupling setup} (exact : K.Alike = Eq) {context : ContextId}
    {α : Type} {result result' : Except Halt α × World} (same : K.Same context result result') :
    result' = result := by
  obtain ⟨outcome, -, alike, world, -⟩ := same
  rw [exact] at alike
  refine Prod.ext outcome ?_
  rw [world,← alike]

namespace Discipline

variable {setup : Setup} (D : Discipline (id : List Line → List Line) setup) {machine machine' : Machine}
  {context : ContextId} {bound : Nat}

/-- Machines that do related things with tokens and blocks below a size. -/
abbrev AgreeBelow (bound : Nat) (machine machine' : Machine) : Prop :=
  D.Agree (fun token => token.length < bound) (fun lines => size lines < bound) machine machine'

private theorem linesBlock_of_size (agree : D.AgreeBelow bound machine machine') (tells : D.Tells)
    (online : setup.network = none → D.Online) (plain : machine.code = id) {lines : List Line}
    (fits : size lines ≤ bound) {frame : FrameId} (here : D.At frame) :
    D.Rel context (some frame)
      (Machine.linesBlock setup machine lines frame context)
      (Machine.linesBlock setup machine' lines frame context) := by
  refine D.items (Statement.strict_items lines) fun item member statement found => ?_
  obtain ⟨tokens, blocks⟩ := Statement.smaller_items member found
  refine D.statement agree tells here (fun token given => ?_) (fun block given => ?_) fun line same => ?_
  · exact Nat.lt_of_lt_of_le (tokens token given) fits
  · rw [plain]
    exact Nat.lt_of_lt_of_le (blocks block given) fits
  · refine ⟨fun read token member => ?_, fun own _ => online own⟩
    subst same
    exact Nat.lt_of_lt_of_le (tokens token (by simpa [Statement.tokens,read] using member)) fits

private theorem evaluateToken_of_length (agree : D.AgreeBelow bound machine machine') (tells : D.Tells)
    (online : setup.network = none → D.Online) {token : Token} (fits : token.length ≤ bound) {frame : FrameId}
    (here : D.At frame) (home : Option FrameId) :
    D.Rel context home
      (machine.evaluateToken setup token frame context)
      (machine'.evaluateToken setup token frame context) := by
  refine D.evaluateToken agree tells ⟨fun read arg member => ?_, fun own _ => online own⟩ here
  have shorter := Call.length_args read arg member
  have trimmed := Text.length_trim_le token
  omega

end Discipline

namespace Machine

variable {setup : Setup} {bottom bottom' : Machine}

/-- The machine a number of levels above another one. -/
def above (setup : Setup) (bottom : Machine) : Nat → Machine
  | 0 => bottom
  | depth + 1 => next setup (above setup bottom depth) (linesBlock setup (above setup bottom depth))

theorem level_eq_above (setup : Setup) (depth : Nat) :
    level setup depth = above setup (exhausted id) depth := by
  induction depth with
  | zero => rfl
  | succ depth ih =>
    rw [above,← ih]
    rfl

theorem above_above (setup : Setup) (bottom : Machine) (more depth : Nat) :
    above setup (above setup bottom more) depth = above setup bottom (more + depth) := by
  induction depth with
  | zero => rfl
  | succ depth ih =>
    rw [above,ih]
    rfl

theorem code_above (plain : bottom.code = id) (depth : Nat) : (above setup bottom depth).code = id := by
  induction depth with
  | zero => exact plain
  | succ depth ih => exact ih

private theorem run_above (plain : bottom.code = id) (depth : Nat) (source : String) (options : RunOptions)
    (world : World) :
    (above setup bottom (depth + 1)).run source options world =
      let lines := Source.lines source.toList
      session options ((above setup bottom depth).block lines)
        (world.logged s!"run started: {lines.length} logical lines") := by
  simp only [above,next,script,code_above plain]
  rfl

/-- The number of levels that the calls take which are still to come. -/
def callLevels (setup : Setup) (most calls : Nat) : Nat := (setup.maxCallDepth.toNat - calls) * (most + 1)

private theorem callLevels_succ {calls : Nat} (room : ¬setup.maxCallDepth ≤ calls) (most : Nat) :
    callLevels setup most (calls + 1) + (most + 1) = callLevels setup most calls := by
  have split : setup.maxCallDepth.toNat - calls = setup.maxCallDepth.toNat - (calls + 1) + 1 := by omega
  rw [callLevels,callLevels,split,Nat.succ_mul]

end Machine

/-- The coupling of runs with a number of calls under way, whose functions are no larger than `most`. -/
def Coupling.atCall (setup : Setup) (most calls : Nat) : Coupling setup :=
  .exact setup
    (fun run => run.commands = .empty ∧ run.callDepth = calls ∧
      ∀ name function, run.functions.get? name = some function → size function.body ≤ most)
    (fun lines => size lines ≤ most) (fun _ => False) (fun _ _ given => given) (fun _ _ known => known)
    (fun _ _ known => known)
    (fun run name function known fine => by
      refine ⟨known.1, known.2.1, fun other found read => ?_⟩
      rw [Table.get?_insert] at read
      split at read
      · cases read
        exact fine
      · exact known.2.2 other found read)
    fun _ known => known.1

namespace Coupling

variable {setup : Setup} {most calls : Nat} {context : ContextId} {α : Type}

private theorem counted_atCall {work work' : Exec α} (inner : (atCall setup most (calls + 1)).Rel context work work') :
    (atCall setup most calls).Rel context (Machine.counted context work) (Machine.counted context work') := by
  refine counted (K := atCall setup most calls) (atCall setup most (calls + 1)) rfl (fun _ _ => trivial)
    (fun _ given => given) rfl
    (.inl rfl) (fun run known => ?_) (fun run known => ?_) inner
  · exact ⟨known.1, congrArg (· + 1) known.2.1, known.2.2⟩
  · exact ⟨known.1, congrArg (· - 1) known.2.1, known.2.2⟩

variable {machine machine' : Machine} {bound : Nat}

/-- Machines agree if their blocks and tokens do, and their blocks with one call more under way. -/
private theorem agree_of_blocks (plain : machine.code = id) (plain' : machine'.code = id) (fits : bound ≤ most + 1)
    (blocks : ∀ {lines : List Line}, size lines < bound → ∀ frame context,
      (atCall setup most calls).Rel context
        (machine.block lines frame context) (machine'.block lines frame context))
    (tokens : ∀ {token : Token}, token.length < bound → ∀ frame context,
      (atCall setup most calls).Rel context
        (machine.token token frame context) (machine'.token token frame context))
    (bodies : ¬setup.maxCallDepth ≤ calls → ∀ {lines : List Line}, size lines < most + 1 → ∀ frame context,
      (atCall setup most (calls + 1)).Rel context
        (machine.block lines frame context) (machine'.block lines frame context)) :
    (atCall setup most calls).discipline.AgreeBelow bound machine machine' where
  code lines := by
    rw [plain,plain']
    rfl
  body given := Nat.le_of_lt_succ (Nat.lt_of_lt_of_le given fits)
  block given frame _ context := blocks given frame context
  token given frame _ context _ := tokens given frame context
  enter {run} known {name function} found {_} fine context _ := by
    refine (atCall setup most calls).discipline.enter trivial name trivial fine fun now knows room frame _ => ?_
    refine counted_atCall (bodies ?_ (Nat.lt_succ_of_le (known.2.2 name function found)) frame context)
    rw [← knows.2.1]
    exact room
  run hosted := nomatch hosted

/-- The induction is on the level. A block or a token needs one level more than the next smaller one. A
call needs the level that the whole text needs with one call less to come, so blocks are settled for
every number of calls before calls are. -/
private theorem agree_above {bottom bottom' : Machine} (plain : bottom.code = id) (plain' : bottom'.code = id)
    {depth : Nat} (fits : bound ≤ most + 1) (deep : Machine.callLevels setup most calls + bound ≤ depth) :
    (atCall setup most calls).discipline.AgreeBelow bound
      (Machine.above setup bottom depth) (Machine.above setup bottom' depth) := by
  induction depth generalizing calls bound with
  | zero =>
    refine agree_of_blocks plain plain' fits (fun small => ?_) (fun small => ?_) fun room => ?_
    · omega
    · omega
    · have levels := Machine.callLevels_succ room most
      omega
  | succ depth ih =>
    have blocks {calls bound : Nat} (fits : bound ≤ most + 1)
        (deep : Machine.callLevels setup most calls + bound ≤ depth + 1) {lines : List Line}
        (small : size lines < bound) (frame : FrameId) (context : ContextId) :
        (atCall setup most calls).Rel context
          ((Machine.above setup bottom (depth + 1)).block lines frame context)
          ((Machine.above setup bottom' (depth + 1)).block lines frame context) := by
      have below : (atCall setup most calls).discipline.AgreeBelow (size lines) _ _ :=
        ih (by omega) (by omega)
      exact (atCall setup most calls).discipline.linesBlock_of_size below (atCall setup most calls).tells
        id (Machine.code_above plain depth) (Nat.le_refl _) trivial
    refine agree_of_blocks (Machine.code_above plain _) (Machine.code_above plain' _) fits (blocks fits deep)
      (fun {token} small frame context => ?_) fun room => blocks (Nat.le_refl _) ?_
    · have below : (atCall setup most calls).discipline.AgreeBelow token.length _ _ :=
        ih (by omega) (by omega)
      exact (atCall setup most calls).discipline.evaluateToken_of_length below (atCall setup most calls).tells
        id (Nat.le_refl _) trivial none
    · have levels := Machine.callLevels_succ room most
      omega

end Coupling

namespace Machine

/-- A number of levels that is enough for a script: for the script and for each call under way, as many
as its lines have characters. -/
def enough (setup : Setup) (source : String) : Nat :=
  (setup.maxCallDepth.toNat + 1) * (size (Source.lines source.toList) + 1)

/-- From the level that is enough on, it makes no difference what stands at the bottom. -/
theorem run_above_eq {setup : Setup} {bottom bottom' : Machine} (plain : bottom.code = id)
    (plain' : bottom'.code = id) {source : String} {depth : Nat} (deep : enough setup source ≤ depth)
    {options : RunOptions} (unhosted : options.commands = .empty) (world : World) :
    (above setup bottom (depth + 1)).run source options world =
      (above setup bottom' (depth + 1)).run source options world := by
  rw [run_above plain,run_above plain']
  dsimp only
  rw [session_run,session_run]
  generalize lined : Source.lines source.toList = lines
  generalize world.logged _ = world
  have levels : callLevels setup (size lines) 0 + (size lines + 1) ≤ depth := by
    rw [enough,lined,Nat.succ_mul] at deep
    rwa [callLevels,Nat.sub_zero]
  have agree := Coupling.agree_above plain plain' (Nat.le_refl _) levels
  have begun : (Coupling.atCall setup (size lines) 0).Holds world.contexts.size (world.opened options) := by
    refine ⟨?_, fun _ => by simp [World.opened]⟩
    rw [World.contextAt_opened,if_pos rfl]
    exact ⟨unhosted, rfl, fun name function found => by cases found⟩
  have block (root : FrameId) : (Coupling.atCall setup (size lines) 0).Rel world.contexts.size
      ((above setup bottom depth).block lines root world.contexts.size)
      ((above setup bottom' depth).block lines root world.contexts.size) :=
    agree.block (Nat.lt_succ_self _) trivial world.contexts.size
  have ended := block world.scopes.frames.size (world.opened options) (world.opened options).heap rfl begun
  rcases ended with ⟨_, _, excused⟩ | same
  · exact excused.elim
  · have equal := same.eq rfl
    rw [equal]

end Machine

end Inyandiko
