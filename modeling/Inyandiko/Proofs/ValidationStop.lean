import Inyandiko.Proofs.Changes

/-! Stopping at a failed validation. A run that goes on where another one stops does the same up to
that point, so the first run is a truncation of the second: the second one passes through the state
that the first one ended in, and what it does then only adds to its traces. -/
namespace Inyandiko

variable {Code Code' : Type} {context : ContextId}

/-- A context whose run goes on after failed validations. -/
def Context.lenient (run : Context Code) : Context Code := { run with stopOnInvalid := false }

namespace World

/-- The world in which a run goes on after failed validations. -/
def lenient (world : World Code) (context : ContextId) : World Code :=
  { world with contexts := world.contexts.modify context Context.lenient }

private theorem modify_comm {α : Type} (items : Array α) (index : Nat) (one two : α → α)
    (commute : ∀ item, one (two item) = two (one item)) :
    (items.modify index one).modify index two = (items.modify index two).modify index one := by
  apply Array.ext_getElem?
  intro other
  simp only [Array.getElem?_modify]
  split
  · cases items[other]? with
    | none => rfl
    | some item => simp [commute]
  · rfl

private theorem modify_lenient (world : World Code) (change : Context Code → Context Code)
    (blind : ∀ run, change run.lenient = (change run).lenient) :
    { world.lenient context with
        contexts := (world.lenient context).contexts.modify context change } =
      lenient { world with contexts := world.contexts.modify context change } context := by
  simp only [lenient,modify_comm world.contexts context Context.lenient change fun run => (blind run).symm]

/-- Worlds that a run cannot tell apart, but for its flag and the calls under way. -/
structure Alike (context : ContextId) (one two : World Code) : Prop where
  heap : two.heap = one.heap
  scopes : two.scopes = one.scopes
  surfaces : two.surfaces = one.surfaces
  output : two.output = one.output
  requests : two.requests = one.requests
  events : two.events = one.events
  exports : (two.contextAt context).exports = (one.contextAt context).exports
  results : (two.contextAt context).results = (one.contextAt context).results

private theorem Alike.of_shallower {one two : World Code} (alike : one.Alike context two) :
    Alike context { one with contexts := one.contexts.modify context Machine.shallower } two where
  heap := alike.heap
  scopes := alike.scopes
  surfaces := alike.surfaces
  output := alike.output
  requests := alike.requests
  events := alike.events
  exports := alike.exports.trans (view_modify (·.exports) one context context Machine.shallower fun _ => rfl).symm
  results := alike.results.trans (view_modify (·.results) one context context Machine.shallower fun _ => rfl).symm

/-- The states that a run without a host may get to from a state, inside calls or after them. -/
inductive Later (context : ContextId) : World Code → World Code → Prop
  | refl (world : World Code) : Later context world world
  | changes {home : Option FrameId} {first second third : World Code} (earlier : Later context first second)
      (changes : Changes false context home second third) : Later context first third
  | left {first second : World Code} (earlier : Later context first second) :
      Later context first { second with contexts := second.contexts.modify context Machine.shallower }

private theorem Later.grown {before after : World Code} (later : Later context before after) :
    before.Grown context after := by
  induction later with
  | refl => exact .refl _
  | changes earlier changes ih => exact ih.trans changes.grown
  | left earlier ih => exact ih.trans (.of_modify _ _ Machine.shallower fun _ => rfl)

private theorem Alike.grown {one two : World Code} (alike : one.Alike context two) : one.Grown context two := by
  refine ⟨?_, ?_, fun id => ?_, ?_⟩
  · simp only [alike.output,List.prefix_rfl]
  · simp only [alike.requests,List.prefix_rfl]
  · simp only [alike.surfaces,List.prefix_rfl]
  · simp only [alike.results,List.prefix_rfl]

end World

/-- Two runs of the same work, the second of which goes on after failed validations: they do the
same, or the first one is stopped and the second one goes on from where it was. -/
inductive Together {α : Type} (context : ContextId) (one two : Except Halt α × World Code) : Prop
  | same (equal : two = (one.1, one.2.lenient context))
  | stopped {line : String} {middle : World Code} (stop : one.1 = .error (.invalid line))
      (alike : one.2.Alike context middle) (later : World.Later context middle two.2)

private theorem Together.bind {α β : Type} {first : ExecOf Code α} {next : α → ExecOf Code β}
    {world other : World Code} (begun : Together context (first world) (first other))
    (following : ∀ value after, first world = (.ok value, after) →
      Together context (next value after) (next value (after.lenient context)))
    (further : ∀ value after, first other = (.ok value, after) →
      ∃ home, Changes false context home after (next value after).2) :
    Together context ((first >>= next) world) ((first >>= next) other) := by
  rw [Exec.bind_run,Exec.bind_run]
  rcases begun with equal | ⟨stop, alike, later⟩
  · rw [equal]
    rcases result : first world with ⟨halt | value, after⟩
    · exact .same rfl
    · exact following value after result
  · rcases result : first world with ⟨outcome, after⟩
    rw [result] at stop alike
    rw [show outcome = _ from stop]
    rcases further' : first other with ⟨halt | value, reached⟩
    · rw [further'] at later
      exact .stopped rfl alike later
    · rw [further'] at later
      obtain ⟨home, changes⟩ := further value reached further'
      exact .stopped rfl alike (later.changes changes)

private theorem Together.located {α : Type} {work : ExecOf Code α} {world other : World Code} (line : Source.Line)
    (inner : Together context (work world) (work other)) :
    Together context (Machine.located line work world) (Machine.located line work other) := by
  rw [Machine.located_run,Machine.located_run]
  rcases inner with equal | ⟨stop, alike, later⟩
  · exact .same (by rw [equal])
  · exact .stopped (by rw [stop]; rfl) alike later

private theorem Together.counted {α : Type} {call : ExecOf Code α} {world : World Code}
    (inner : ∀ world : World Code, (world.contextAt context).commands = .empty →
      Together context (call world) (call (world.lenient context)))
    (plain : (world.contextAt context).commands = .empty) :
    Together context (Machine.counted context call world)
      (Machine.counted context call (world.lenient context)) := by
  simp only [Machine.counted_run]
  rw [World.modify_lenient world Machine.deeper fun _ => rfl]
  have same := World.view_modify (·.commands) world context context Machine.deeper fun _ => rfl
  rcases inner _ (same.trans plain) with equal | ⟨stop, alike, later⟩
  · refine .same ?_
    rw [equal,World.modify_lenient _ Machine.shallower fun _ => rfl]
  · exact .stopped stop alike.of_shallower later.left

namespace Machine

end Machine

namespace InStep

variable {recode : Code → Code'} {home : Option FrameId} {α : Type} {work : ExecOf Code α}
  {work' : ExecOf Code' α}

end InStep

namespace Machine

end Machine

namespace SharedList

/-- A world with a list and an empty element. -/
def world : World where
  heap := { objects := #[.list [.int 1]] }
  surfaces := #[{ elements := .ofList [("#a", .text "")] }]

/-- Gives the list as a result, checks the element, and adds to the list. -/
def source : String := "koresha(l)\nidafite_agaciro('#a')\nkoresha(l, 'append', 5)"

/-- The list is a variable of the run. -/
def options (stop : Bool) : RunOptions where
  vars := .ofList [("l", .ref 0)]
  surface := some 0
  stopOnInvalid := stop

/-- The run of the script, which either stops at the check or goes on. -/
def run (stop : Bool) : Except Halt Record × World := execute {} source (options stop) world

/-- The number of items that a value holds. -/
def count : Datum → Nat
  | .list items => items.length
  | _ => 0

private theorem returned {stop ok : Bool} {results : List Value}
    (found : (run stop).1.toOption.map (fun record => (record.ok, record.results)) = some (ok, results)) :
    ∃ record, (run stop).1 = .ok record ∧ record.ok = ok ∧ record.results = results := by
  generalize (run stop).1 = outcome at found ⊢
  rcases outcome with halt | record
  · cases found
  · cases found
    exact ⟨record, rfl, rfl, rfl⟩

end SharedList

end Inyandiko
