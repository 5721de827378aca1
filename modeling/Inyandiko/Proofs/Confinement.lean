import Inyandiko.Proofs.Likeness.Kit

/-! Computations that keep to a part of the heap. A part is given by the places that are held. It is
closed when the objects at these places lead to no others, and new places belong to it; scripts that are
given nothing else then change nothing else, if the host keeps to what it is given. -/
namespace Inyandiko

instance : Carries Overrides where
  values overrides :=
    overrides.vars.values ++ overrides.dependencies.values ++ overrides.elements.elim [] Table.values

/-- A value that leads to no place but those held. -/
def Value.Held (held : Nat → Prop) (value : Value) : Prop := ∀ place, value = .ref place → held place

theorem Value.held_flat {held : Nat → Prop} {value : Value} (plain : ∀ place, value ≠ .ref place) :
    value.Held held :=
  fun place same => absurd same (plain place)

theorem Value.held_ref {held : Nat → Prop} {place : Nat} : (Value.ref place).Held held ↔ held place :=
  ⟨fun held => held place rfl, fun held _ same => Value.ref.inj same ▸ held⟩

namespace Heap

/-- A part of the heap whose objects lead to no place outside it, and which new places belong to. -/
structure Closed (held : Nat → Prop) (heap : Heap) : Prop where
  fresh : ∀ place, heap.objects.size ≤ place → held place
  inside : ∀ place, held place → ∀ object, heap.objects[place]? = some object → Carries.All (Value.Held held) object

/-- A heap in which only places that are held differ from what they were in `base`. -/
structure Guarded (held : Nat → Prop) (base heap : Heap) : Prop extends heap.Closed held where
  apart : ∀ place, ¬held place → heap.objects[place]? = base.objects[place]?

variable {held : Nat → Prop} {base heap : Heap}

theorem Closed.guarded (closed : heap.Closed held) : Guarded held heap heap := ⟨closed, fun _ _ => rfl⟩

theorem Guarded.trans {after : Heap} (first : Guarded held base heap) (second : Guarded held heap after) :
    Guarded held base after :=
  ⟨second.toClosed, fun place outside => (second.apart place outside).trans (first.apart place outside)⟩

private theorem Closed.object (closed : heap.Closed held) {value : Value} (fine : value.Held held) {object : Object}
    (found : heap.object? value = some object) : Carries.All (Value.Held held) object := by
  cases value with
  | ref place => exact closed.inside place (Value.held_ref.1 fine) object found
  | _ => cases found

theorem Closed.alloc (closed : heap.Closed held) {object : Object} (fine : Carries.All (Value.Held held) object) :
    Guarded held heap (heap.alloc object).2 := by
  refine ⟨⟨fun place new => closed.fresh place ?_, fun place own other found => ?_⟩, fun place outside => ?_⟩
  · simp only [Heap.alloc,Array.size_push] at new
    omega
  · simp only [Heap.alloc,Array.getElem?_push] at found
    split at found
    · cases found
      exact fine
    · exact closed.inside place own other found
  · have old : place ≠ heap.objects.size := fun same => outside (closed.fresh place (Nat.le_of_eq same.symm))
    simp only [Heap.alloc,Array.getElem?_push,if_neg old]

private theorem Closed.set (closed : heap.Closed held) {place : Nat} (own : held place) {object : Object}
    (fine : Carries.All (Value.Held held) object) : Guarded held heap (heap.set place object) := by
  refine ⟨⟨fun other new => closed.fresh other ?_, fun other inside found present => ?_⟩, fun other outside => ?_⟩
  · simpa only [Heap.set,Array.size_setIfInBounds] using new
  · simp only [Heap.set,Array.getElem?_setIfInBounds] at present
    split at present
    · split at present
      · cases present
        exact fine
      · cases present
    · exact closed.inside other inside found present
  · have different : place ≠ other := fun same => outside (same ▸ own)
    simp only [Heap.set,Array.getElem?_setIfInBounds,if_neg different]

end Heap

/-- A command of the host that keeps to what is held: it uses no other values, as long as it is given no
others. -/
def Action.Within (held : Nat → Prop) : Action → Prop
  | .done value => value.Held held
  | .fail _ => True
  | .examine next => ∀ heap : Heap, heap.Closed held → (next heap).Within held
  | .make object next =>
    Carries.All (Value.Held held) object ∧ ∀ value : Value, value.Held held → (next value).Within held
  | .visible next =>
    ∀ names : Table Value, (∀ value ∈ names.values, value.Held held) → (next names).Within held
  | .assign _ value next => value.Held held ∧ next.Within held
  | .erase _ next => next.Within held
  | .run _ overrides next =>
    Carries.All (Value.Held held) overrides ∧
      ∀ record : Record, Carries.All (Value.Held held) record → (next record).Within held

/-- A host that keeps to the places held: its functions and the members that it lends change no others and
its commands use no others, as long as they are given no others. -/
structure Host.ConfinedTo (held : Nat → Prop) (host : Host) : Prop where
  call {heap after : Heap} (closed : heap.Closed held) {callee : Callee}
    (own : Carries.All (Value.Held held) callee) {args : List Value} (given : ∀ arg ∈ args, arg.Held held)
    {value : Value} (done : host.call callee args heap = .ok (value, after)) :
    value.Held held ∧ Heap.Guarded held heap after
  handler {name : String} {given : CommandContext} (args : ∀ arg ∈ given.args, arg.Held held)
    (dependencies : ∀ value ∈ given.dependencies.values, value.Held held) : (host.handler name given).Within held

namespace Setup

/-- A setup that keeps to the places held: its host does, and so do the families that stand in for built-in
ones, as long as they see no others. -/
structure ConfinedTo (held : Nat → Prop) (setup : Setup) : Prop extends setup.host.ConfinedTo held where
  family {heap after : Heap} (closed : heap.Closed held) {family : Family} (given : setup.Replaces family)
    {names : Table Value} (visible : ∀ value ∈ names.values, value.Held held) {line : Source.Line}
    {found : Option Value} (done : setup.host.family family line names heap = .ok (found, after)) :
    Carries.All (Value.Held held) found ∧ Heap.Guarded held heap after

/-- A value of their own that families of commands give to a line, whatever is visible there. -/
def Supplies (setup : Setup) (value : Value) : Prop :=
  ∃ family line, setup.Replaces family ∧
    ∀ names heap, ∃ after, setup.host.family family line names heap = .ok (some value, after)

/-- A setup that has no hold on the heap but by what it is given and by what its families supply. -/
def Confined (setup : Setup) : Prop :=
  ∀ held : Nat → Prop, (∀ value, setup.Supplies value → value.Held held) → setup.ConfinedTo held

/-- Where nothing is replaced, only the host can have a hold on the heap. -/
theorem confined_of_host {setup : Setup} (host : ∀ held, setup.host.ConfinedTo held)
    (own : ∀ family, ¬setup.Replaces family) : setup.Confined :=
  fun held _ => { host held with family := fun _ _ given => absurd given (own _) }

end Setup

section Everywhere

theorem Heap.closed_everywhere (heap : Heap) : heap.Closed fun _ => True :=
  ⟨fun _ _ => trivial, fun _ _ _ _ _ _ _ _ => trivial⟩

private theorem Action.within_everywhere (action : Action) : action.Within fun _ => True := by
  induction action with
  | done => exact fun _ _ => trivial
  | fail => trivial
  | examine next ih => exact fun heap _ => ih heap
  | make object next ih => exact ⟨fun _ _ _ _ => trivial, fun value _ => ih value⟩
  | visible next ih => exact fun names _ => ih names
  | assign name value next ih => exact ⟨fun _ _ => trivial, ih⟩
  | erase name next ih => exact ih
  | run source overrides next ih => exact ⟨fun _ _ _ _ => trivial, fun record _ => ih record⟩

/-- Where all places are held there is nothing to keep to. -/
theorem Setup.confinedTo_everywhere (setup : Setup) : setup.ConfinedTo fun _ => True where
  call {_ after} _ _ _ _ _ _ _ :=
    ⟨fun _ _ => trivial, after.closed_everywhere, fun _ outside => absurd trivial outside⟩
  handler _ _ := Action.within_everywhere _
  family {_ after} _ _ _ _ _ _ _ _ :=
    ⟨fun _ _ _ _ => trivial, after.closed_everywhere, fun _ outside => absurd trivial outside⟩

end Everywhere

/-- The likeness of a heap to itself, as long as it differs from `base` in places held only. -/
def Likeness.guarded {held : Nat → Prop} {host : Host} (confined : host.ConfinedTo held) (base : Heap) :
    Likeness host where
  Alike heap heap' := heap = heap' ∧ Heap.Guarded held base heap
  Halts _ := True
  Fine := Value.Held held
  flat := Value.held_flat
  inside alike _ fine _ found := alike.2.toClosed.object fine found
  fresh alike := Value.held_ref.2 (alike.2.fresh _ (Nat.le_refl _))
  publicly alike := alike.1 ▸ .refl _
  alloc := by
    rintro heap _ ⟨rfl, guarded⟩ object - fine
    exact ⟨rfl, guarded.trans (guarded.toClosed.alloc fine)⟩
  lend := by
    rintro heap _ ⟨rfl, guarded⟩ value fine name -
    exact ⟨rfl, guarded.trans (guarded.toClosed.alloc fun _ held => List.mem_singleton.1 held ▸ fine)⟩
  set := by
    rintro heap _ ⟨rfl, guarded⟩ place own items fine
    exact ⟨rfl, guarded.trans (guarded.toClosed.set (Value.held_ref.1 own) fine)⟩
  fault _ := trivial
  tooDeep := trivial
  slip _ := trivial
  answer _ _ _ _ _ _ := trivial
  call := by
    rintro heap _ ⟨rfl, known⟩ target fine callee found args given heap _ ⟨rfl, guarded⟩
    obtain ⟨object, found, called⟩ := Option.bind_eq_some_iff.1 found
    have own := Object.all_callee called (known.toClosed.object fine found)
    cases ended : host.call callee args heap with
    | error halt =>
      rw [HeapM.YieldsAt,ended]
      exact ⟨.error trivial, fun _ _ done => by cases done⟩
    | ok result =>
      obtain ⟨held, after⟩ := confined.call guarded.toClosed own given ended
      rw [HeapM.YieldsAt,ended]
      refine ⟨.ok result.1 ⟨rfl, guarded.trans after⟩, fun value after same => ?_⟩
      cases same
      exact Carries.all_value.2 held

private theorem Host.bare_confinedTo (held : Nat → Prop) : Host.bare.ConfinedTo held where
  call _ _ _ _ _ _ done := by cases done
  handler _ _ := Value.held_flat (by simp)

theorem Heap.Closed.entries {held : Nat → Prop} {heap : Heap} (closed : heap.Closed held) {value : Value}
    (fine : value.Held held) {entries : Table Value} (found : heap.entries? value = some entries) :
    ∀ inner ∈ entries.values, inner.Held held :=
  (Likeness.guarded (Host.bare_confinedTo held) heap).fine_entries ⟨rfl, closed.guarded⟩ fine found

namespace Kit

variable {held : Nat → Prop}

private theorem held_getD {found : Option (Table Value)}
    (fine : ∀ {table}, found = some table → ∀ value ∈ table.values, value.Held held) :
    ∀ value ∈ (found.getD .empty).values, value.Held held := by
  cases found with
  | none => exact nofun
  | some table => exact fine rfl

private theorem call_guarded {heap after : Heap} (closed : heap.Closed held) {callee : Callee}
    (own : Carries.All (Value.Held held) callee) {args : List Value} (given : ∀ arg ∈ args, arg.Held held)
    {value : Value} (done : call callee args heap = .ok (value, after)) :
    value.Held held ∧ Heap.Guarded held heap after := by
  let L := Likeness.guarded (Host.bare_confinedTo held) heap
  -- only the counter writes, and only to its own object
  have count (name : String) (owner : Option Nat) (same : callee = .function name owner) :
      L.Rel (countUp owner) (countUp owner) := by
    subst same
    refine L.ask fun before _ alike => ?_
    obtain ⟨rfl, guarded⟩ := alike
    cases owner with
    | none => exact L.datum (by simp)
    | some place =>
      have here : held place := Value.held_ref.1 (own _ List.mem_cons_self)
      dsimp only
      split
      · rename_i name attributes found
        have kept (n : Int) :
            Carries.All (Value.Held held) (Object.host name (attributes.insert "count" (.int n))) := by
          intro inner member
          rcases Table.mem_values_insert member with rfl | member
          · exact Value.held_flat (by simp [Value.int])
          · exact guarded.inside place here _ found inner member
        refine fun _ _ _ => ⟨.ok _ ⟨rfl, guarded.trans (guarded.toClosed.set here (kept _))⟩, ?_⟩
        intro value after same
        cases same
        exact Carries.all_value.2 (Value.held_flat (by simp [Value.int]))
      · exact L.datum (by simp)
  obtain ⟨ends, fine⟩ :=
    L.kit (fun alike => alike.1.symm) (fun _ => trivial) given count heap heap ⟨rfl, closed.guarded⟩
  rw [done] at ends fine
  cases ends with
  | ok _ alike => exact ⟨Carries.all_value.1 (fine _ _ rfl), alike.2⟩

private theorem product_within (args : List Value) : (product args).Within held := by
  unfold product
  repeat' split
  all_goals first | trivial | exact Value.held_flat (by simp)

private theorem total_within (sum : Number) (args : List Value) : (total sum args).Within held := by
  induction args generalizing sum with
  | nil => exact Value.held_flat (by simp)
  | cons arg args ih =>
    cases arg with
    | number n =>
      rw [total]
      cases sum.add n with
      | ok sum => exact ih sum
      | error crash => trivial
    | _ => trivial

private theorem texts_within (items : List String) {next : Value → Action}
    (following : ∀ value : Value, value.Held held → (next value).Within held) : (texts items next).Within held := by
  refine ⟨fun value member => ?_, following⟩
  obtain ⟨text, _, rfl⟩ := List.mem_map.1 member
  exact Value.held_flat (by simp)

private theorem table_within {entries : List (String × Value)} (fine : ∀ entry ∈ entries, entry.2.Held held) :
    (Action.make (.dict (.ofList entries)) .done).Within held := by
  refine ⟨fun value member => ?_, fun _ made => made⟩
  obtain ⟨entry, among, rfl⟩ := List.mem_map.1 (Table.mem_values_ofList member)
  exact fine entry among

private theorem look_within {context : CommandContext} (args : ∀ arg ∈ context.args, arg.Held held) :
    (look context).Within held := by
  refine ⟨args, fun list heldList => texts_within _ fun names heldNames => table_within fun entry member => ?_⟩
  simp only [List.mem_cons,List.not_mem_nil,or_false] at member
  rcases member with rfl | rfl | rfl | rfl
  · exact Value.held_flat (by simp)
  · exact Value.held_flat (by simp)
  · exact heldList
  · exact heldNames

private theorem recordTable_within {record : Record} (fine : Carries.All (Value.Held held) record) :
    (recordTable record).Within held := by
  refine ⟨fun value member => fine value ?_, fun vars heldVars => ⟨fun value member => fine value ?_,
    fun exports heldExports => ⟨fun value member => fine value ?_, fun results heldResults => ?_⟩⟩⟩
  · exact List.mem_append_left _ (List.mem_append_left _ member)
  · exact List.mem_append_left _ (List.mem_append_right _ member)
  · exact List.mem_append_right _ member
  · refine table_within fun entry member => ?_
    rcases List.mem_append.1 member with member | member
    · rcases List.mem_append.1 member with member | member
      · cases List.mem_singleton.1 member
        exact Value.held_flat (by simp)
      · split at member
        · cases List.mem_singleton.1 member
          exact Value.held_flat (by simp)
        · cases member
    · simp only [List.mem_cons,List.not_mem_nil,or_false] at member
      rcases member with rfl | rfl | rfl
      · exact heldVars
      · exact heldExports
      · exact heldResults

private theorem overrides_within {heap : Heap} (closed : heap.Closed held) {table : Table Value}
    (fine : ∀ value ∈ table.values, value.Held held) : Carries.All (Value.Held held) (overrides heap table) := by
  have entries {key : String} {inner : Table Value} (found : (table.get? key).bind heap.entries? = some inner) :
      ∀ value ∈ inner.values, value.Held held := by
    obtain ⟨value, known, found⟩ := Option.bind_eq_some_iff.1 found
    exact closed.entries (fine value (Table.mem_values_of_get? known)) found
  intro value member
  rcases List.mem_append.1 member with member | member
  · rcases List.mem_append.1 member with member | member
    · exact held_getD entries value member
    · exact held_getD entries value member
  · change value ∈ Option.elim ((table.get? "elements").bind heap.entries?) [] Table.values at member
    cases found : (table.get? "elements").bind heap.entries? with
    | none =>
      rw [found] at member
      cases member
    | some inner =>
      rw [found] at member
      exact entries found value member

private theorem nested_within {args : List Value} (given : ∀ arg ∈ args, arg.Held held) :
    (nested args).Within held := by
  unfold nested
  split
  · trivial
  · rename_i source args
    intro heap closed
    refine ⟨overrides_within closed (held_getD fun found => ?_), fun record fine => recordTable_within fine⟩
    obtain ⟨value, first, found⟩ := Option.bind_eq_some_iff.1 found
    exact closed.entries (given value (List.mem_cons_of_mem _ (List.mem_of_head? first))) found
  · exact fun _ _ => trivial

/-- The kit has no hold on the heap but by what it is given. -/
theorem confinedTo (held : Nat → Prop) : host.ConfinedTo held where
  call := call_guarded
  handler := by
    intro name given args dependencies
    change (Kit.handler name given).Within held
    unfold Kit.handler
    split
    case h_1 => exact product_within _
    case h_2 => exact total_within _ _
    case h_3 => exact look_within args
    case h_4 value _ found =>
      refine ⟨args value ?_, Value.held_flat (by simp)⟩
      rw [found]
      exact List.mem_cons_of_mem _ List.mem_cons_self
    case h_5 | h_6 => exact fun _ _ => trivial
    case h_7 => exact Value.held_flat (by simp)
    case h_11 => exact fun names _ => texts_within _ fun _ made => made
    case h_12 => exact fun names _ => Value.held_flat (by simp [Value.int])
    case h_14 => exact nested_within args
    all_goals trivial

end Kit

end Inyandiko
