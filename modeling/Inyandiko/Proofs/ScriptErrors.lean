import Inyandiko.Proofs.Likeness.Coupling

/-! The errors of scripts. Without commands of the host, hooks and commands of the network, a run ends early by
a fault of the script, by a slip (a number, a position or a kind of value that does not fit), by a crash in what
it calls of the host, or in a loop that makes no headway, and by nothing else. Slips are no faults: a digit that
is no decimal one, as an index of a path, ends a run by a crash. -/
namespace Inyandiko

open Source

/-- A line that asks nothing of the network: it is no call of a command of the network, and neither are its
arguments. -/
inductive Line.Offline : Line → Prop
  | intro {line : Line} (other : ∀ call, Call.parse? line = some call → call.name ∉ Network.names)
    (args : ∀ call, Call.parse? line = some call → ∀ arg ∈ call.args, Line.Offline (Text.trim arg)) :
    Line.Offline line

/-- Lines whose statements ask nothing of the network: neither their tokens nor their commands nor the blocks
inside them do. -/
inductive Block.Offline : List Line → Prop
  | intro {lines : List Line}
    (tokens : ∀ item ∈ Statement.items lines, ∀ statement, item.statement = .ok statement →
      ∀ token ∈ statement.tokens, Line.Offline (Text.trim token))
    (commands : ∀ item ∈ Statement.items lines, ∀ line, item.statement = .ok (.command line) → Line.Offline line)
    (blocks : ∀ item ∈ Statement.items lines, ∀ statement, item.statement = .ok statement →
      ∀ block ∈ statement.blocks, Block.Offline block) :
    Block.Offline lines

/-- Finds out whether a line asks nothing of the network, with so many calls inside one another at most. -/
def Line.isOffline : Nat → Line → Bool
  | 0, _ => false
  | depth + 1, line =>
    (Call.parse? line).all fun call =>
      !Network.names.contains call.name && call.args.all fun arg => isOffline depth (Text.trim arg)

/-- Finds out whether lines ask nothing of the network, with so many blocks or calls inside one another at
most. -/
def Block.isOffline : Nat → List Line → Bool
  | 0, _ => false
  | depth + 1, lines =>
    (Statement.items lines).all fun item =>
      item.statement.toOption.all fun statement =>
        statement.tokens.all (fun token => Line.isOffline depth (Text.trim token)) &&
          (match statement with
            | .command line => Line.isOffline depth line
            | _ => true) &&
          statement.blocks.all (isOffline depth)

private theorem Line.offline_of_isOffline {depth : Nat} {line : Line} (found : Line.isOffline depth line = true) :
    Line.Offline line := by
  induction depth generalizing line with
  | zero => cases found
  | succ depth ih =>
    rw [isOffline] at found
    refine .intro (fun call read => ?_) fun call read arg member => ?_
    all_goals
      rw [read,Option.all_some,Bool.and_eq_true] at found
    · simpa using found.1
    · exact ih (List.all_eq_true.1 found.2 arg member)

private theorem Block.offline_of_isOffline {depth : Nat} {lines : List Line}
    (found : Block.isOffline depth lines = true) :
    Block.Offline lines := by
  induction depth generalizing lines with
  | zero => cases found
  | succ depth ih =>
    rw [isOffline] at found
    have each (item : Statement.Item) (member : item ∈ Statement.items lines) (statement : Statement)
        (read : item.statement = .ok statement) := List.all_eq_true.1 found item member
    refine .intro (fun item member statement read token among => ?_) (fun item member line read => ?_)
      fun item member statement read block among => ?_
    all_goals
      have known := each item member _ read
      rw [read] at known
      simp only [Except.toOption,Option.all_some,Bool.and_eq_true,List.all_eq_true] at known
    · exact Line.offline_of_isOffline (known.1.1 token among)
    · exact Line.offline_of_isOffline known.1.2
    · exact ih (known.2 block among)

/-- A heap without answers of the network, from which only some functions of the host and members that it lends
can be called. -/
structure Heap.Offers (callable : Callee → Prop) (heap : Heap) : Prop where
  answers (place : Nat) (response : Response) : heap.objects[place]? ≠ some (.response response)
  objects (place : Nat) (object : Object) (callee : Callee) : heap.objects[place]? = some object →
    object.callee? = some callee → callable callee
  lends (value : Value) (object : Option Object) (name : String) :
    heap.runtime.lends value object name = some .member → callable (.member name value)

namespace Heap.Offers

variable {callable : Callee → Prop} {heap : Heap}

private theorem alloc (offers : heap.Offers callable) {object : Object}
    (other : ∀ response, object ≠ .response response)
    (allowed : ∀ callee, object.callee? = some callee → callable callee) :
    (heap.alloc object).2.Offers callable where
  answers place response found := by
    simp only [Heap.alloc,Array.getElem?_push] at found
    split at found
    · exact other response (Option.some.inj found)
    · exact offers.answers place response found
  objects place held callee found called := by
    simp only [Heap.alloc,Array.getElem?_push] at found
    split at found
    · cases found
      exact allowed callee called
    · exact offers.objects place held callee found called
  lends := offers.lends

private theorem set (offers : heap.Offers callable) (place : Nat) (items : List Value) :
    (heap.set place (.list items)).Offers callable where
  answers other response found := by
    simp only [Heap.set,Array.getElem?_setIfInBounds] at found
    split at found
    · split at found <;> cases found
    · exact offers.answers other response found
  objects other held callee found called := by
    simp only [Heap.set,Array.getElem?_setIfInBounds] at found
    split at found
    · split at found
      · cases found
        cases called
      · cases found
    · exact offers.objects other held callee found called
  lends := offers.lends

private theorem object (offers : heap.Offers callable) {value : Value} {object : Object}
    (found : heap.object? value = some object) :
    (∀ response, object ≠ .response response) ∧ ∀ callee, object.callee? = some callee → callable callee := by
  cases value with
  | ref place =>
    refine ⟨?_, fun callee => offers.objects place object callee found⟩
    rintro response rfl
    exact offers.answers place response found
  | _ => cases found

end Heap.Offers

/-- A host whose calls bring nothing into the heap that could not be called before. -/
def Host.KeepsOffers (host : Host) (callable : Callee → Prop) : Prop :=
  ∀ callee args heap value after, callable callee → heap.Offers callable →
    host.call callee args heap = .ok (value, after) → after.Offers callable

/-- A crash in what is called of the host. -/
def Host.Raises (host : Host) (callable : Callee → Prop) (crash : Crash) : Prop :=
  ∃ callee args heap, callable callee ∧ host.call callee args heap = .error (.crash crash)

/-- The crashes that a script runs into, by a slip of its own or in what it calls. -/
def Host.Crashes (host : Host) (callable : Callee → Prop) (halt : Halt) : Prop :=
  ∀ crash, halt = .crash crash → crash.isSlip ∨ host.Raises callable crash

section Offers

variable {setup : Setup} {callable : Callee → Prop}

/-- The likeness of a heap with itself, as long as it offers nothing else. -/
def Likeness.offering (host : Host) (keeps : host.KeepsOffers callable) : Likeness host where
  Alike heap heap' := heap = heap' ∧ heap.Offers callable
  Halts := host.Crashes callable
  Fine _ := True
  flat _ := trivial
  inside _ _ _ _ _ _ _ := trivial
  fresh _ := trivial
  publicly alike := alike.1 ▸ .refl _
  alloc := by
    rintro heap _ ⟨rfl, offers⟩ object plain -
    refine ⟨rfl, offers.alloc ?_ ?_⟩
    · rintro response rfl
      cases plain
    · intro callee called
      unfold Object.callee? at called
      split at called
      all_goals cases called
      all_goals cases plain
  lend := by
    rintro heap _ ⟨rfl, offers⟩ value - name lent
    refine ⟨rfl, offers.alloc (by simp) ?_⟩
    rintro callee ⟨⟩
    exact offers.lends _ _ _ lent
  set := by
    rintro heap _ ⟨rfl, offers⟩ place - items -
    exact ⟨rfl, offers.set place items⟩
  fault _ := by rintro crash ⟨⟩
  tooDeep := by rintro crash ⟨⟩
  slip slips := by
    rintro crash ⟨⟩
    exact .inl slips
  answer alike _ _ found := absurd rfl ((alike.2.object found).1 _)
  call := by
    rintro heap _ ⟨rfl, offers⟩ target - callee found args - heap _ ⟨rfl, still⟩
    obtain ⟨object, found, called⟩ := Option.bind_eq_some_iff.1 found
    have allowed := (offers.object found).2 callee called
    rw [HeapM.YieldsAt]
    cases ended : host.call callee args heap with
    | ok result => exact ⟨.ok result.1 ⟨rfl, keeps _ _ _ _ _ allowed still ended⟩, fun _ _ _ _ _ => trivial⟩
    | error halt =>
      refine ⟨.error ?_, fun _ _ done => by cases done⟩
      rintro crash rfl
      exact .inr ⟨callee, args, heap, allowed, ended⟩

/-- The coupling of a run that asks nothing of the network with itself. -/
def Coupling.offline (setup : Setup) (builtIn : ∀ family, ¬setup.Replaces family)
    (keeps : setup.host.KeepsOffers callable) : Coupling setup where
  toLikeness := .offering setup.host keeps
  hosted := false
  Known run := run.commands = .empty ∧ run.hooks = {} ∧
    ∀ name function, run.functions.get? name = some function → Block.Offline function.body
  present := false
  Body := Block.Offline
  Excused _ := False
  fine _ := trivial
  endless := by rintro crash ⟨⟩
  invalid _ := by rintro crash ⟨⟩
  located {line halt} allowed := by
    rintro crash same
    cases halt with
    | crash other =>
      cases same
      exact allowed crash rfl
    | _ => cases same
  excused given := given
  failing known hook := by
    rw [known.2.1] at hook
    rcases hook with hook | hook <;> cases hook
  results known _ := known
  exports known _ := known
  functions known name function body := by
    refine ⟨known.1, known.2.1, fun other found same => ?_⟩
    rw [Table.get?_insert] at same
    split at same
    · cases same
      exact body
    · exact known.2.2 other found same
  plain _ _ known := known.1
  family given := absurd given (builtIn _)
  Online := False
  unreachable := False.elim
  problem := False.elim
  answers foreign := by
    rcases foreign with online | hosted
    · exact online.elim
    · cases hosted
  blind hosted := nomatch hosted
  free hosted := nomatch hosted

variable {builtIn : ∀ family, ¬setup.Replaces family} {keeps : setup.host.KeepsOffers callable}

private theorem Line.Offline.runs {line : Line} (offline : Line.Offline line) :
    (Coupling.offline setup builtIn keeps).discipline.Runs (fun token => Line.Offline (Text.trim token)) line := by
  obtain ⟨other, args⟩ := offline
  refine ⟨fun read token member => args _ read token member, fun _ named => ?_⟩
  unfold Call.parseNamed? at named
  cases read : Call.parse? line with
  | none => simp [read] at named
  | some call => simp [read,other call read] at named

/-- Blocks that ask nothing of the network halt only in the ways of scripts on their own or of what they call. -/
private theorem Machine.block_crashes (builtIn : ∀ family, ¬setup.Replaces family)
    (keeps : setup.host.KeepsOffers callable) (depth : Nat) {lines : List Line} (offline : Block.Offline lines)
    (frame : FrameId) (context : ContextId) {world : World} (offers : world.heap.Offers callable)
    (known : (Coupling.offline setup builtIn keeps).Known (world.contextAt context)) {halt : Halt}
    (failed : ((Machine.level setup depth).block lines frame context world).1 = .error halt) :
    setup.host.Crashes callable halt := by
  let K := Coupling.offline setup builtIn keeps
  have counts : K.discipline.Counts :=
    K.counts (by rintro crash ⟨⟩) (fun _ known => known) fun _ known => known
  have agree := K.discipline.agree_level_within rfl counts K.tells (fun _ offline => Line.Offline.runs offline)
    (fun lines offline item member statement found => by
      obtain ⟨tokens, commands, blocks⟩ := offline
      refine ⟨tokens item member statement found, blocks item member statement found, ?_⟩
      rintro line rfl
      exact (commands item member line found).runs)
    (fun _ offline => offline) (fun _ known => known.2.2) depth
  have block : K.Rel context ((Machine.level setup depth).block lines frame context)
      ((Machine.level setup depth).block lines frame context) :=
    agree.block offline trivial context
  rcases block world world.heap ⟨rfl, offers⟩ ⟨known, by simp [K,Coupling.offline]⟩ with ⟨_, _, excused⟩ | same
  · exact excused.elim
  · exact same.halts halt failed

end Offers

private theorem Machine.located_ne_tooDeep {Code α : Type} (line : Line) (work : ExecOf Code α) (world : World Code) :
    (Machine.located line work world).1 ≠ .error .tooDeep := by
  rw [Machine.located_run]
  rcases work world with ⟨halt | value, after⟩
  · cases halt <;> nofun
  · nofun

theorem Machine.items_ne_tooDeep {Code : Type} (run : Statement → ExecOf Code (Option Value))
    (items : List Statement.Item) (world : World Code) :
    (Machine.items run items world).1 ≠ .error .tooDeep := by
  induction items generalizing world with
  | nil => nofun
  | cons item items ih =>
    refine Exec.error_ne_of_bind (Machine.located_ne_tooDeep item.line _ world) fun signal after => ?_
    cases signal with
    | some value => nofun
    | none => exact ih after

private theorem Cause.category_ne_general (cause : Cause) : cause.category ≠ .general := by
  cases cause <;> nofun

/-- A run of a script that asks nothing of the network, with the built-in families and without commands of the
host and hooks, ends early by a fault of one of the categories of faults, by a slip, by a crash in what of the host
can be called, or in a loop that makes no headway. -/
theorem errors_are_faults_or_slips (setup : Setup) (builtIn : ∀ family, ¬setup.Replaces family)
    (callable : Callee → Prop) (keeps : setup.host.KeepsOffers callable) (source : String)
    (offline : Block.Offline (Source.lines source.toList)) (options : RunOptions)
    (plain : options.commands = .empty) (unhooked : options.hooks = {}) (world : World)
    (offers : world.heap.Offers callable) (halt : Halt)
    (failed : (execute setup source options world).1 = .error halt) :
    (∃ fault, halt = .fault fault ∧ fault.cause.category ≠ .general) ∨
      (∃ crash, halt = .crash crash ∧ (crash.isSlip ∨ setup.host.Raises callable crash)) ∨ halt = .endless := by
  rw [execute_run,Machine.session_run,unhooked] at failed
  obtain ⟨ended, valid⟩ := Machine.conclude_error failed
  have deep : halt ≠ .tooDeep := by
    rintro rfl
    exact Machine.items_ne_tooDeep _ _ _ ended
  have crashes : setup.host.Crashes callable halt := by
    refine Machine.block_crashes builtIn keeps _ offline _ _ ?_ ?_ ended
    · exact offers
    · rw [World.contextAt_opened,if_pos rfl]
      exact ⟨plain, unhooked, fun _ _ found => by cases found⟩
  cases halt with
  | fault fault => exact .inl ⟨fault, rfl, fault.cause.category_ne_general⟩
  | crash crash => exact .inr (.inl ⟨crash, rfl, crashes crash rfl⟩)
  | invalid line => exact absurd rfl (valid line)
  | tooDeep => exact absurd rfl deep
  | endless => exact .inr (.inr rfl)

namespace UnusualDigit

/-- A world with one list. -/
def world : World := { heap := { objects := #[.list [.int 1]] } }

/-- The list is a variable of the run. -/
def options : RunOptions := { vars := .ofList [("a", .ref 0)] }

end UnusualDigit

open UnusualDigit in
/-- A superscript is a digit, but no decimal one: as an index it ends the run by a crash, and the
script is not said to be at fault. -/
theorem superscript_index_crashes :
    (execute {} "let x = a[²]" options world).1 = .error (.crash (.badInteger "²")) :=
  eq_error_of_stoppedBy (by decide +kernel)

private theorem UnusualDigit.offers : world.heap.Offers fun _ => False where
  answers place response found := by
    rcases place with _ | place <;> cases found
  objects place object callee found called := by
    rcases place with _ | place
    · cases found
      cases called
    · cases found
  lends _ _ _ lent := by cases lent

namespace MissingField

/-- A host that lends a member to a text, which finds that something is missing. -/
def lending : Host := { Host.bare with call := fun _ _ => throw (.crash (.missingKey "a")) }

def heap : Heap where
  runtime := { lends := fun value _ name => if value = .text "\x7ba\x7d" ∧ name = "format" then some .member else none }

def isTemplate (callee : Callee) : Prop := callee = .member "format" (.text "\x7ba\x7d")

private theorem offers : heap.Offers isTemplate where
  answers place response found := by cases found
  objects place object callee found called := by cases found
  lends value object name lent := by
    simp only [heap] at lent
    split at lent
    · rename_i given
      rw [isTemplate,given.1,given.2]
    · cases lent

end MissingField

open UnusualDigit MissingField in
/-- The superscript is a slip. A member that the host lends to a text, and that is missing something, is none. -/
theorem errors_are_faults_or_slips_superscript :
    ((∃ fault, Halt.crash (.badInteger "²") = .fault fault ∧ fault.cause.category ≠ .general) ∨
      (∃ crash, Halt.crash (.badInteger "²") = .crash crash ∧
        (crash.isSlip ∨ (Host.bare).Raises (fun _ => False) crash)) ∨ Halt.crash (.badInteger "²") = .endless) ∧
    ((∃ fault, Halt.crash (.missingKey "a") = .fault fault ∧ fault.cause.category ≠ .general) ∨
      (∃ crash, Halt.crash (.missingKey "a") = .crash crash ∧ (crash.isSlip ∨ lending.Raises isTemplate crash)) ∨
        Halt.crash (.missingKey "a") = .endless) := by
  have builtIn (host : Host) (family : Family) : ¬({ host } : Setup).Replaces family := by simp [Setup.Replaces]
  constructor
  · exact errors_are_faults_or_slips {} (builtIn _) (fun _ => False) (fun _ _ _ _ _ called => called.elim)
      "let x = a[²]" (@Block.offline_of_isOffline 3 _ (by decide +kernel)) options rfl rfl world UnusualDigit.offers _
      (eq_error_of_stoppedBy (by decide +kernel))
  · exact errors_are_faults_or_slips { host := lending } (builtIn _) isTemplate
      (fun _ _ _ _ _ _ _ done => by cases done) "koresha('\x7ba\x7d', 'format')"
      (@Block.offline_of_isOffline 3 _ (by decide +kernel)) {} rfl rfl { heap }
      MissingField.offers _ (eq_error_of_stoppedBy (by decide +kernel))

end Inyandiko
