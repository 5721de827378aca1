import Inyandiko.Proofs.Accord
import Inyandiko.Proofs.Lifecycle

/-! What becomes of surfaces. Scripts change surfaces in four ways, and each of them keeps the elements,
attaches styles and listeners to elements only, and adds alerts and listeners behind those that are there.
Of the commands of the built-in families only those of the environment change a surface, as the last
thing they do, so a command that fails has changed none. -/
namespace Inyandiko

open Source

variable {α β : Type}

namespace Surface

/-- A surface whose styles and listeners belong to its elements. -/
structure Attached (surface : Surface) : Prop where
  styled : ∀ selector ∈ surface.styles.keys, selector ∈ surface.elements.keys
  listening : ∀ entry ∈ surface.listeners, entry.1.1 ∈ surface.elements.keys

/-- What a surface may have become since it was as given: it has the same elements, each with the value
it had or a text; its styles and listeners belong to elements; alerts and listeners were added behind
those that were there. -/
structure Kept (initial now : Surface) : Prop extends now.Attached where
  selectors : now.elements.keys = initial.elements.keys
  elements : ∀ selector value, now.elements.get? selector = some value →
    initial.elements.get? selector = some value ∨ ∃ text, value = .text text
  alerts : initial.alerts.toList <+: now.alerts.toList
  listeners : ∀ selector event, initial.listenersOf selector event <+: now.listenersOf selector event

theorem Kept.refl {surface : Surface} (attached : surface.Attached) : surface.Kept surface where
  toAttached := attached
  selectors := rfl
  elements _ _ found := .inl found
  alerts := List.prefix_refl _
  listeners _ _ := List.prefix_refl _

theorem Kept.trans {initial middle now : Surface} (first : initial.Kept middle) (second : middle.Kept now) :
    initial.Kept now where
  toAttached := second.toAttached
  selectors := second.selectors.trans first.selectors
  elements selector value found := by
    rcases second.elements selector value found with before | text
    · exact first.elements selector value before
    · exact .inr text
  alerts := first.alerts.trans second.alerts
  listeners selector event := (first.listeners selector event).trans (second.listeners selector event)

private theorem isText_iff {value : Value} : Operator.isText value = true ↔ ∃ text, value = .text text := by
  cases value <;> simp [Operator.isText]

private theorem kept_iff (initial now : Surface) :
    initial.Kept now ↔
      (∀ selector ∈ now.styles.keys, selector ∈ now.elements.keys) ∧
      (∀ entry ∈ now.listeners, entry.1.1 ∈ now.elements.keys) ∧
      now.elements.keys = initial.elements.keys ∧
      (∀ entry ∈ now.elements.entries, initial.elements.get? entry.1 = some entry.2 ∨ Operator.isText entry.2) ∧
      initial.alerts.toList <+: now.alerts.toList ∧
      ∀ entry ∈ initial.listeners,
        initial.listenersOf entry.1.1 entry.1.2 <+: now.listenersOf entry.1.1 entry.1.2 := by
  constructor
  · intro kept
    refine ⟨kept.styled, kept.listening, kept.selectors, fun entry member => ?_, kept.alerts,
      fun entry _ => kept.listeners _ _⟩
    rw [isText_iff]
    exact kept.elements entry.1 entry.2 (Table.get?_of_mem _ member)
  · rintro ⟨styled, listening, selectors, elements, alerts, listeners⟩
    refine ⟨⟨styled, listening⟩, selectors, fun selector value found => ?_, alerts, fun selector event => ?_⟩
    · rw [← isText_iff]
      exact elements (selector, value) (Table.mem_of_lookup found)
    · cases bound : initial.listeners.lookup (selector, event) with
      | none =>
        rw [listenersOf,bound]
        exact List.nil_prefix
      | some found => exact listeners ((selector, event), found) (Table.mem_of_lookup bound)

instance (initial now : Surface) : Decidable (initial.Kept now) :=
  decidable_of_iff _ (kept_iff initial now).symm

section Steps

private theorem mem_keys_of_read {surface : Surface} {selector : String} {value : Value}
    (found : surface.read selector = .ok value) : selector ∈ surface.elements.keys := by
  unfold read at found
  split at found
  · rename_i held
    rw [← Table.contains_iff,Table.contains,held]
    rfl
  · cases found

private theorem lookup_addListener (key other : String × String) (listener : Listener)
    (listeners : List ((String × String) × List Listener)) :
    ((addListener key listener listeners).lookup other).getD [] =
      (listeners.lookup other).getD [] ++ if other = key then [listener] else [] := by
  induction listeners with
  | nil => by_cases same : other = key <;> simp [addListener,Table.lookup_entry,same]
  | cons entry listeners ih =>
    obtain ⟨present, bound⟩ := entry
    by_cases here : present = key
    · subst here
      by_cases same : other = present <;> simp [addListener,Table.lookup_entry,same]
    · by_cases same : other = present
      · subst same
        simp [addListener,here]
      · simp [addListener,Table.lookup_entry,here,same,ih]

private theorem mem_addListener {key : String × String} {listener : Listener}
    {listeners : List ((String × String) × List Listener)} {entry : (String × String) × List Listener}
    (member : entry ∈ addListener key listener listeners) :
    entry.1 = key ∨ ∃ bound, (entry.1, bound) ∈ listeners := by
  induction listeners with
  | nil => exact .inl (congrArg Prod.fst (List.mem_singleton.1 member))
  | cons present listeners ih =>
    simp only [addListener] at member
    split at member
    · rename_i here
      rcases List.mem_cons.1 member with rfl | later
      · exact .inl here
      · exact .inr ⟨entry.2, List.mem_cons_of_mem _ later⟩
    · rcases List.mem_cons.1 member with rfl | later
      · exact .inr ⟨_, List.mem_cons_self⟩
      · exact (ih later).imp_right fun ⟨bound, among⟩ => ⟨bound, List.mem_cons_of_mem _ among⟩

private theorem Step.kept {before after : Surface} (step : before.Step after) (attached : before.Attached) :
    before.Kept after := by
  have still := Kept.refl attached
  cases step with
  | alert message =>
    refine { still with alerts := ?_ }
    rw [Surface.alert,Array.toList_push]
    exact List.prefix_append _ _
  | @write _ selector text written =>
    obtain ⟨_, held, written⟩ := ok_of_bind written
    cases written
    -- the element is there already, so its selector keeps its place
    have same : (before.elements.insert selector (.text text)).keys = before.elements.keys :=
      Table.keys_insert_of_contains _ _ _ ((Table.contains_iff _ _).2 (mem_keys_of_read held))
    refine { still with selectors := same, styled := ?_, listening := ?_, elements := ?_ }
    · rw [same]
      exact attached.styled
    · rw [same]
      exact attached.listening
    · intro name value found
      rw [Table.get?_insert] at found
      split at found
      · exact .inr ⟨text, (Option.some.inj found).symm⟩
      · exact .inl found
  | @style _ selector property value styled =>
    obtain ⟨_, held, styled⟩ := ok_of_bind styled
    cases styled
    refine { still with styled := fun name member => ?_ }
    rcases (Table.mem_keys_put _ _ _ _).1 member with rfl | member
    · exact mem_keys_of_read held
    · exact attached.styled name member
  | listen bound =>
    obtain ⟨_, held, bound⟩ := ok_of_bind bound
    cases bound
    refine { still with listening := fun entry member => ?_, listeners := fun name event => ?_ }
    · rcases mem_addListener member with same | ⟨bound, among⟩
      · rw [same]
        exact mem_keys_of_read held
      · exact attached.listening (entry.1, bound) among
    · rw [listenersOf,listenersOf,lookup_addListener]
      exact List.prefix_append _ _

/-- Whatever is done to surfaces in one go, each of them is kept. -/
theorem Moves.kept {surfaces surfaces' : Array Surface} (moves : Moves surfaces surfaces') {id : Nat}
    {surface : Surface} (found : surfaces[id]? = some surface) (attached : surface.Attached) :
    ∃ after, surfaces'[id]? = some after ∧ surface.Kept after := by
  cases moves with
  | none => exact ⟨surface, found, .refl attached⟩
  | @step other after step =>
    rw [Array.getElem?_setIfInBounds]
    split
    · rename_i here
      subst here
      rw [found] at step
      rw [if_pos (Array.getElem?_eq_some_iff.1 found).1]
      exact ⟨after, rfl, step.kept attached⟩
    · exact ⟨surface, found, .refl attached⟩
  | make elements =>
    refine ⟨surface, ?_, .refl attached⟩
    rw [Array.getElem?_push,if_neg (Nat.ne_of_lt (Array.getElem?_eq_some_iff.1 found).1),found]

end Steps

end Surface

/-- A computation that changes no context, and surfaces only if it has a result of some kind. -/
def Exec.Touching (Result : α → Prop) (work : Exec α) : Prop :=
  ∀ world, (work world).2.contexts = world.contexts ∧
    ((work world).2.surfaces = world.surfaces ∨ ∃ value, (work world).1 = .ok value ∧ Result value)

/-- A computation that changes neither contexts nor surfaces. -/
abbrev Exec.Still (work : Exec α) : Prop := Exec.Touching (fun _ => False) work

/-- A computation that does not fail and has a result of some kind, and that changes no context. -/
def Exec.Sure (Result : α → Prop) (work : Exec α) : Prop :=
  ∀ world, (work world).2.contexts = world.contexts ∧ ∃ value, (work world).1 = .ok value ∧ Result value

namespace Exec

variable {Result : α → Prop} {Result' : β → Prop}

private theorem Touching.surfaces {work : Exec α} (touching : Touching Result work) {world after : World} {halt : Halt}
    (failed : work world = (.error halt, after)) : after.surfaces = world.surfaces := by
  have ended := (touching world).2
  rw [failed] at ended
  rcases ended with same | ⟨value, done, -⟩
  · exact same
  · cases done

private theorem Still.run {work : Exec α} (still : Still work) (world : World) :
    (work world).2.surfaces = world.surfaces ∧ (work world).2.contexts = world.contexts :=
  ⟨(still world).2.resolve_right fun ⟨_, _, wrong⟩ => wrong, (still world).1⟩

private theorem Touching.of_run {work : Exec α} (run : ∀ world, (work world).2.surfaces = world.surfaces ∧
    (work world).2.contexts = world.contexts) : Touching Result work :=
  fun world => ⟨(run world).2, .inl (run world).1⟩

private theorem Still.weaken {work : Exec α} (still : Still work) : Touching Result work := .of_run still.run

private theorem Touching.bind_sure {first : Exec α} {next : α → Exec β} (head : Touching Result first)
    (sure : ∀ value, Result value → Sure Result' (next value))
    (tail : ∀ value, Touching Result' (next value)) : Touching Result' (first >>= next) := by
  intro world
  have begun := head world
  rw [bind_run]
  generalize first world = ending at begun ⊢
  obtain ⟨halt | value, after⟩ := ending
  · exact ⟨begun.1, begun.2.imp_right fun ⟨_, done, _⟩ => by cases done⟩
  · rcases begun.2 with same | ⟨_, done, fine⟩
    · obtain ⟨contexts, surfaces⟩ := tail value after
      exact ⟨contexts.trans begun.1, surfaces.imp_left (·.trans same)⟩
    · cases done
      obtain ⟨contexts, result⟩ := sure value fine after
      exact ⟨contexts.trans begun.1, .inr result⟩

private theorem Touching.bind {first : Exec α} {next : α → Exec β} (head : Still first)
    (tail : ∀ value, Touching Result' (next value)) : Touching Result' (first >>= next) :=
  head.bind_sure (fun _ wrong => wrong.elim) tail

private theorem Touching.pure (value : α) : Touching Result (Pure.pure value) := .of_run fun _ => ⟨rfl, rfl⟩

private theorem Sure.pure {value : α} (fine : Result value) : Sure Result (Pure.pure value) :=
  fun _ => ⟨rfl, value, rfl, fine⟩

private theorem Touching.fail (cause : Cause) : Touching Result (Exec.fail cause) := .of_run fun _ => ⟨rfl, rfl⟩

private theorem Touching.lift (outcome : Except Halt α) : Touching Result (liftExcept outcome) :=
  .of_run fun world => by
    rw [liftExcept_run]
    exact ⟨rfl, rfl⟩

private theorem Touching.onHeap (step : HeapM α) : Touching Result (Exec.onHeap step) :=
  .of_run fun world => by
    rw [onHeap_run]
    split <;> exact ⟨rfl, rfl⟩

private theorem Touching.askHeap (question : Heap → Except Halt α) : Touching Result (Exec.askHeap question) :=
  .of_run fun world => by
    rw [askHeap_run]
    exact ⟨rfl, rfl⟩

private theorem Touching.heap {next : Heap → Exec β} (tail : ∀ heap, Touching Result' (next heap)) :
    Touching Result' (Exec.heap >>= next) :=
  .bind (.of_run fun _ => ⟨rfl, rfl⟩) tail

private theorem Touching.evaluateIn {Result : Value → Prop} (frame : FrameId) (token : Token) :
    Touching Result (Exec.evaluateIn frame token) :=
  .bind (.of_run fun _ => ⟨rfl, rfl⟩) fun _ => .onHeap _

private theorem Touching.mapM {work : α → Exec β} (each : ∀ item, Still (work item)) (items : List α) :
    Still (items.mapM work) := by
  induction items with
  | nil => exact .pure _
  | cons item items ih =>
    rw [List.mapM_cons]
    exact .bind (each item) fun _ => .bind ih fun _ => .pure _

private theorem Touching.onSurface (id : Nat) (change : Surface → Except Halt Surface) :
    Touching (fun _ => True) (Exec.onSurface id change) := by
  intro world
  rw [onSurface_run]
  split
  · exact ⟨rfl, .inr ⟨(), rfl, trivial⟩⟩
  · exact ⟨rfl, .inl rfl⟩

end Exec

section Families

variable (call : Call) (frame : FrameId)

private theorem Call.still_evaluateArgs (count : Option Nat) : Exec.Still (call.evaluateArgs frame count) := by
  have values : Exec.Still (call.args.mapM (Exec.evaluateIn frame)) := .mapM (Exec.Touching.evaluateIn frame) _
  unfold Call.evaluateArgs
  cases count with
  | none => exact values
  | some count =>
    dsimp only
    split
    · exact .bind (.fail _) fun _ => values
    · exact values

private theorem Call.still_evaluateOne : Exec.Still (call.evaluateOne frame) :=
  .bind (call.still_evaluateArgs frame _) fun _ => .pure _

private theorem Call.still_evaluateTwo : Exec.Still (call.evaluateTwo frame) :=
  .bind (call.still_evaluateArgs frame _) fun _ => .pure _

namespace Environment

private theorem still_functionName (token : Token) : Exec.Still (functionName token frame) := by
  refine .bind (.of_run fun _ => ⟨rfl, rfl⟩) fun scopes => ?_
  split
  · exact .pure _
  · exact .bind (.evaluateIn frame _) fun _ => .askHeap _

private theorem still_print : Exec.Still (print call frame) :=
  .bind (call.still_evaluateArgs frame none) fun _ => .bind (.mapM (fun _ => .askHeap _) _) fun _ =>
    .of_run fun _ => ⟨rfl, rfl⟩

variable (surface : Option Nat) (listener : Option (String → Listener))

private theorem touching_alert : Exec.Touching (fun _ => True) (alert call surface frame) := by
  refine .bind (call.still_evaluateOne frame) fun value => .bind (.askHeap _) fun message => ?_
  cases surface with
  | none => exact .of_run fun _ => ⟨rfl, rfl⟩
  | some id => exact .onSurface id _

private theorem touching_bind (id : Nat) : Exec.Touching (fun _ => True) (bind call id frame listener) := by
  unfold bind
  split
  · refine .bind (.evaluateIn frame _) fun _ => .bind (.askHeap _) fun selector => ?_
    refine .bind (.evaluateIn frame _) fun _ => .bind (.askHeap _) fun event => ?_
    refine .bind (still_functionName frame _) fun handler => ?_
    cases listener with
    | none => exact .of_run fun _ => ⟨rfl, rfl⟩
    | some listener =>
      exact (Exec.Touching.onSurface id _).bind_sure (fun _ _ _ => ⟨rfl, (), rfl, trivial⟩) fun _ =>
        .of_run fun _ => ⟨rfl, rfl⟩
  · exact .fail _

private theorem touching_null {work : Exec Unit} (touching : Exec.Touching (fun _ => True) work) :
    Exec.Touching (fun _ => True) (do work; return Value.null) :=
  touching.bind_sure (fun _ _ => .pure trivial) fun _ => .pure _

private theorem touching_onSurface (id : Nat) : Exec.Touching (fun _ => True) (onSurface call id frame listener) := by
  unfold onSurface
  split
  · refine .bind (call.still_evaluateTwo frame) fun pair => .bind (.askHeap _) fun selector => ?_
    exact .bind (.askHeap _) fun shown => touching_null (.onSurface id _)
  · refine .bind (call.still_evaluateTwo frame) fun pair => .bind (.askHeap _) fun selector => ?_
    exact .bind (.askHeap _) fun shown => touching_null (.onSurface id _)
  · refine .bind (call.still_evaluateTwo frame) fun pair => .bind (.askHeap _) fun selector => ?_
    exact .bind (.askHeap _) fun colour => touching_null (.onSurface id _)
  · refine .bind (call.still_evaluateOne frame) fun value => .bind (.askHeap _) fun selector => ?_
    exact .bind (.of_run fun _ => ⟨rfl, rfl⟩) fun surface => .lift _
  · exact touching_null (touching_bind call frame listener id)

private theorem touching_perform : Exec.Touching (fun _ => True) (perform call surface frame listener) := by
  unfold perform
  split
  · exact .bind (still_print call frame) fun _ => .pure _
  · exact touching_null (touching_alert call frame surface)
  · cases surface with
    | none => exact .fail _
    | some id => exact touching_onSurface call frame listener id

private theorem handle_eq (line : Line) : (handle line surface frame listener : Exec (Option Value)) =
    (Call.parseNamed? line names).elim (pure none) fun call => some <$> perform call surface frame listener := by
  unfold handle
  cases Call.parseNamed? line names <;> rfl

private theorem touching_handle (line : Line) :
    Exec.Touching (fun taken => taken.isSome) (handle line surface frame listener) := by
  rw [handle_eq]
  cases Call.parseNamed? line names with
  | none => exact .pure _
  | some call =>
    rw [Option.elim_some,map_eq_pure_bind]
    exact (touching_perform call frame surface listener).bind_sure (fun _ _ => .pure rfl) fun _ => .pure _

end Environment

namespace Validation

private theorem still_perform (surface : Option Nat) : Exec.Still (perform call surface frame) := by
  have looked {γ : Type} (id : Nat) (check : Surface → Except Halt γ) :
      Exec.Still (do liftExcept (check (← Exec.surface id))) :=
    .bind (.of_run fun _ => ⟨rfl, rfl⟩) fun _ => .lift _
  unfold perform
  split
  · exact .fail _
  · split
    · exact .bind (call.still_evaluateOne frame) fun _ => .bind (.askHeap _) fun _ => looked _ _
    · exact .bind (call.still_evaluateOne frame) fun _ => .bind (.askHeap _) fun _ => looked _ _
    · exact .bind (call.still_evaluateTwo frame) fun _ => .bind (.askHeap _) fun _ => .bind (.askHeap _) fun _ =>
        looked _ _

private theorem handle_eq (line : Line) (surface : Option Nat) : (handle line surface frame : Exec (Option Value)) =
    (Call.parseNamed? line names).elim (pure none) fun call => do
      return some (.bool (← perform call surface frame)) := by
  unfold handle
  cases Call.parseNamed? line names <;> rfl

private theorem still_handle (line : Line) (surface : Option Nat) : Exec.Still (handle line surface frame) := by
  rw [handle_eq]
  cases Call.parseNamed? line names with
  | none => exact .pure _
  | some call => exact .bind (still_perform call frame surface) fun _ => .pure _

end Validation

namespace Network

private theorem still_answer (setup : Setup) (url : String) : Exec.Still (answer setup url) := by
  unfold answer
  split
  · exact .pure _
  · exact .of_run fun _ => ⟨rfl, rfl⟩

private theorem still_captureForm (surface : Option Nat) : Exec.Still (captureForm call surface frame) := by
  refine .bind (call.still_evaluateOne frame) fun selector => ?_
  cases surface with
  | none => exact .fail _
  | some id =>
    refine .bind (.askHeap _) fun name => .bind (.of_run fun _ => ⟨rfl, rfl⟩) fun surface => ?_
    refine .bind (.lift _) fun form => .heap fun heap => ?_
    split
    · exact .onHeap _
    · exact .fail _

private theorem still_perform (setup : Setup) (surface : Option Nat) : Exec.Still
    (perform setup call surface frame) := by
  have requested (made : Request) (url : String) :
      Exec.Still (do Exec.request made; answer setup url) :=
    .bind (.of_run fun _ => ⟨rfl, rfl⟩) fun _ => still_answer setup url
  refine .heap fun heap => .bind (.lift _) fun timeout => ?_
  split
  · exact still_captureForm call frame surface
  · exact .bind (call.still_evaluateOne frame) fun _ => .bind (.askHeap _) fun url =>
      .bind (requested _ url) fun _ => .onHeap _
  · exact .bind (call.still_evaluateOne frame) fun _ => .bind (.askHeap _) fun url =>
      .bind (requested _ url) fun _ => .onHeap _
  · exact .bind (call.still_evaluateTwo frame) fun _ => .bind (.askHeap _) fun url =>
      .bind (.heap fun heap => requested _ url) fun _ => .onHeap _

private theorem handle_eq (setup : Setup) (line : Line) (surface : Option Nat) :
    (handle setup line surface frame : Exec (Option Value)) =
    (Call.parseNamed? line names).elim (pure none) fun call => some <$> perform setup call surface frame := by
  unfold handle
  cases Call.parseNamed? line names <;> rfl

private theorem still_handle (setup : Setup) (line : Line) (surface : Option Nat) :
    Exec.Still (handle setup line surface frame) := by
  rw [handle_eq]
  cases Call.parseNamed? line names with
  | none => exact .pure _
  | some call =>
    rw [Option.elim_some,map_eq_pure_bind]
    exact .bind (still_perform call frame setup surface) fun _ => .pure _

end Network

end Families

/-- A line that a family of commands, or the one in its place, takes charge of, whatever is visible. -/
def Setup.TakesBy (setup : Setup) (replacement : Option Family) (names : List String) (line : Line) : Prop :=
  match replacement with
  | some family => ∀ visible heap after, setup.host.family family line visible heap ≠ .ok (none, after)
  | none => (Call.parseNamed? line names).isSome

/-- A line that the environment, the validation or the network takes charge of. -/
def Setup.Takes (setup : Setup) (line : Line) : Prop :=
  setup.TakesBy setup.environment Environment.names line ∨ setup.TakesBy setup.validation Validation.names line ∨
    setup.TakesBy setup.network Network.names line

namespace Machine

variable {setup : Setup} {line : Line} {frame : FrameId}

private theorem touching_consult (replacement : Option Family) {own : Exec (Option Value)}
    {Result : Option Value → Prop}
    (touching : Exec.Touching Result own) : Exec.Touching Result (consult setup replacement line frame own) := by
  cases replacement with
  | some family => exact .bind (.of_run fun _ => ⟨rfl, rfl⟩) fun _ => .onHeap _
  | none => exact touching

/-- A family that answers every command of its own leaves a line to others only if it does not take it. -/
private theorem not_takes_of_consult {replacement : Option Family} {names : List String} {own : Exec (Option Value)}
    {work : Call → Exec (Option Value)} (read : own = (Call.parseNamed? line names).elim (pure none) work)
    (answers : ∀ call world, (work call world).1 ≠ .ok none) {world : World}
    (none : (consult setup replacement line frame own world).1 = .ok none) :
    ¬setup.TakesBy replacement names line := by
  subst read
  cases replacement with
  | some family =>
    intro takes
    simp only [consult,Exec.bind_run,Exec.scopes_run,Exec.onHeap_run] at none
    cases ended : setup.host.family family line (world.scopes.snapshot frame) world.heap with
    | error halt =>
      rw [ended] at none
      cases none
    | ok result =>
      rw [ended] at none
      obtain ⟨found, after⟩ := result
      cases none
      exact takes _ _ after ended
  | none =>
    cases read : Call.parseNamed? line names with
    | none => simp [Setup.TakesBy,read]
    | some call =>
      rw [read] at none
      exact absurd none (answers call world)

private theorem answers_of_bind {work : Exec α} {f : α → Value} (world : World) :
    ((do return some (f (← work)) : Exec (Option Value)) world).1 ≠ .ok none := by
  intro left
  obtain ⟨value, after, -, done⟩ := Exec.ok_of_bind_run left
  cases done

private theorem answers_of_map {work : Exec Value} (world : World) : ((some <$> work) world).1 ≠ .ok none := by
  rw [map_eq_pure_bind]
  exact answers_of_bind world

variable (setup) (line) (frame)

private theorem byFamilies_ne_none (takes : setup.Takes line) (context : ContextId) (world : World) :
    (byFamilies setup line frame context world).1 ≠ .ok none := by
  intro left
  obtain ⟨run, _, -, left⟩ := Exec.ok_of_bind_run left
  obtain ⟨taken, _, first, left⟩ := Exec.ok_of_bind_run left
  cases taken with
  | some value => cases left
  | none =>
    -- all three families would have had to leave it
    obtain ⟨checked, middle, second, left⟩ := Exec.ok_of_bind_run left
    cases checked with
    | some value =>
      obtain ⟨_, _, -, left⟩ := Exec.ok_of_bind_run left
      cases left
    | none =>
      rcases takes with takes | takes | takes
      · exact not_takes_of_consult (Environment.handle_eq _ _ _ _) (fun _ => answers_of_map) (congrArg Prod.fst first)
          takes
      · exact not_takes_of_consult (Validation.handle_eq _ _ _) (fun _ => answers_of_bind) (congrArg Prod.fst second)
          takes
      · exact not_takes_of_consult (Network.handle_eq _ _ _ _) (fun _ => answers_of_map) left takes

private theorem touching_byFamilies (context : ContextId) :
    Exec.Touching (fun taken => taken.isSome) (byFamilies setup line frame context) := by
  refine .bind (.of_run fun _ => ⟨rfl, rfl⟩) fun run =>
    (touching_consult _ (Environment.touching_handle frame _ _ line)).bind_sure (fun taken some => ?_) fun taken => ?_
  · cases taken with
    | none => cases some
    | some value => exact .pure rfl
  cases taken with
  | some value => exact .pure _
  | none =>
    -- what the environment leaves to the others it has not touched, and they only look
    refine .bind (touching_consult _ (Validation.still_handle frame line _)) fun checked => ?_
    cases checked with
    | some value =>
      refine .bind (.of_run fun world => ?_) fun _ => .pure _
      rw [stopIfInvalid_run]
      exact ⟨rfl, rfl⟩
    | none => exact touching_consult _ (Network.still_handle frame setup line _).weaken

private theorem touching_carryOut (machine : Machine) (takes : setup.Takes line) (context : ContextId) :
    Exec.Touching (fun _ => True)
      (machine.carryOut setup (machine.enter setup) (Call.parse? line) line frame context) := by
  intro world
  have touching := touching_byFamilies setup line frame context world
  have answered := byFamilies_ne_none setup line frame takes context world
  unfold carryOut
  rw [Exec.bind_run]
  generalize byFamilies setup line frame context world = ending at touching answered ⊢
  obtain ⟨halt | _ | value, after⟩ := ending
  · exact ⟨touching.1, touching.2.imp_right fun ⟨_, done, _⟩ => by cases done⟩
  · exact absurd rfl answered
  · exact ⟨touching.1, .inr ⟨value, rfl, trivial⟩⟩

private theorem notifyFinish_calm (name : Option String) (value : Value) {context : ContextId} {world : World}
    (calm : (world.contextAt context).hooks.finish ≠ some .failing) :
    ∃ after, notifyFinish name line value context world = (.ok (), after) := by
  cases name with
  | none => exact ⟨_, rfl⟩
  | some name =>
    simp only [notifyFinish,Exec.bind_run,Exec.heap_run,Exec.context_run]
    exact ⟨_, notify_calm calm _ _ _⟩

/-- A command of the built-in families that fails has changed no surface. Only a hook may fail after it. -/
theorem surfaces_of_failed (machine : Machine) (takes : setup.Takes line) {context : ContextId} {world after : World}
    (calm : (world.contextAt context).hooks.finish ≠ some .failing) {halt : Halt}
    (failed : machine.command setup line frame context world = (.error halt, after)) :
    after.surfaces = world.surfaces := by
  obtain ⟨told, events, start⟩ := notifyStart_run ((Call.parse? line).map (·.name)) line context world
  have touching := touching_carryOut setup line frame machine takes context
  simp only [command_eq,commandBy,Exec.bind_run,start] at failed
  cases told with
  | error other =>
    cases failed
    rfl
  | ok _ =>
    have kept := (touching { world with events }).1
    cases result : machine.carryOut setup (machine.enter setup) (Call.parse? line) line frame context
        { world with events } with
    | mk outcome middle =>
      simp only [result] at failed
      cases outcome with
      | error other =>
        cases failed
        have same := touching.surfaces result
        exact same
      | ok value =>
        -- the command was carried out, and its context has the same hooks as before
        rw [result] at kept
        have calm : (middle.contextAt context).hooks.finish ≠ some .failing := by
          rwa [World.contextAt,kept]
        obtain ⟨last, finish⟩ := notifyFinish_calm line ((Call.parse? line).map (·.name)) value calm
        simp only [finish] at failed
        cases failed

end Machine

end Inyandiko
