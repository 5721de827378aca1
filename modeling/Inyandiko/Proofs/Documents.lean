import Inyandiko.Proofs.Exec
import Mathlib.Data.Nat.Init
import Mathlib.Logic.Relation

/-! Documents of values. A value has a document unless its objects are nested too deeply for the room that
there is. A value that holds itself, directly or through others, needs more room than there ever is. -/
namespace Inyandiko

variable {ε α β : Type}

/-- A list that can be gone through consists of items that succeed. -/
theorem ok_of_mapM {step : α → Except ε β} {items : List α} {values : List β}
    (done : items.mapM step = .ok values) :
    (∀ item ∈ items, ∃ value ∈ values, step item = .ok value) ∧
      ∀ value ∈ values, ∃ item ∈ items, step item = .ok value := by
  induction items generalizing values with
  | nil =>
    cases done
    exact ⟨nofun, nofun⟩
  | cons item items ih =>
    rw [List.mapM_cons] at done
    obtain ⟨value, here, done⟩ := ok_of_bind done
    obtain ⟨rest, later, done⟩ := ok_of_bind done
    obtain ⟨forward, backward⟩ := ih later
    cases done
    constructor
    · intro other member
      rcases List.mem_cons.1 member with rfl | member
      · exact ⟨value, List.mem_cons_self, here⟩
      · obtain ⟨found, among, same⟩ := forward other member
        exact ⟨found, List.mem_cons_of_mem _ among, same⟩
    · intro other member
      rcases List.mem_cons.1 member with rfl | member
      · exact ⟨item, List.mem_cons_self, here⟩
      · obtain ⟨found, among, same⟩ := backward other member
        exact ⟨found, List.mem_cons_of_mem _ among, same⟩

/-- Numbers that a document can hold: finite ones, and integers with a decimal expansion that can be
written. -/
def Number.IsWritable : Number → Prop
  | .int n => isLong n = false
  | .float x => x.isFinite = true

/-- Data of the shapes that documents have, all of whose numbers have a property. -/
inductive Datum.Made (allowed : Number → Prop) : Datum → Prop
  | null : Made allowed .null
  | bool (value : Bool) : Made allowed (.bool value)
  | number {value : Number} (fits : allowed value) : Made allowed (.number value)
  | text (value : String) : Made allowed (.text value)
  | list {items : List Datum} (each : ∀ item ∈ items, item.Made allowed) : Made allowed (.list items)
  | dict {entries : List (String × Datum)} (each : ∀ entry ∈ entries, entry.2.Made allowed) :
    Made allowed (.dict entries)

namespace Datum

section Made

variable {allowed : Number → Prop}

private theorem made_list_iff {items : List Datum} :
    (Datum.list items).Made allowed ↔ ∀ item ∈ items, item.Made allowed := by
  constructor
  · rintro (_ | _ | _ | _ | each)
    exact each
  · exact .list

private theorem made_dict_iff {entries : List (String × Datum)} :
    (Datum.dict entries).Made allowed ↔ ∀ item ∈ entries.map (·.2), item.Made allowed := by
  rw [List.forall_mem_map]
  constructor
  · rintro (_ | _ | _ | _ | _ | each)
    exact each
  · exact .dict

end Made

def items : Datum → List Datum
  | .list items | .tuple items => items
  | _ => []

def isFinite : Datum → Bool
  | .number (.float x) => x.isFinite
  | _ => true

theorem Made.items {allowed : Number → Prop} {datum : Datum} (made : datum.Made allowed) :
    ∀ item ∈ datum.items, item.Made allowed := by
  cases made with
  | list each => exact each
  | _ => simp [Datum.items]

theorem Made.isFinite {datum : Datum} (made : datum.Made Number.IsWritable) : datum.isFinite = true := by
  cases made with
  | @number value fits =>
    cases value with
    | int n => rfl
    | float x => exact fits
  | _ => rfl

end Datum

namespace Heap

/-- A value holds its items and the values of its entries. -/
def Holds (heap : Heap) (outer inner : Value) : Prop :=
  (∃ items, heap.items? outer = some items ∧ inner ∈ items) ∨
    ∃ entries, heap.entries? outer = some entries ∧ inner ∈ entries.values

/-- Values that are nested too deeply for some room, of which every object takes two steps and every
other value one. -/
inductive NestedBeyond (heap : Heap) : Nat → Value → Prop
  | nothing (value : Value) : NestedBeyond heap 0 value
  | object (place : Nat) : NestedBeyond heap 1 (.ref place)
  | holding {room : Nat} {outer inner : Value} (holds : heap.Holds outer inner)
    (nested : NestedBeyond heap room inner) : NestedBeyond heap (room + 2) outer

variable {heap : Heap} {room : Nat} {value : Value}

private theorem Holds.place {outer inner : Value} (holds : heap.Holds outer inner) : ∃ place, outer = .ref place := by
  cases outer with
  | ref place => exact ⟨place, rfl⟩
  | _ => rcases holds with ⟨_, found, _⟩ | ⟨_, found, _⟩ <;> cases found

private theorem items?_of_entries? {entries : Table Value} (held : heap.entries? value = some entries) :
    heap.items? value = none := by
  simp only [items?,entries?] at held ⊢
  split at held <;> simp_all

/-- On a circle of values, every value holds another one of the circle. -/
theorem NestedBeyond.of_circle (circle : Relation.TransGen heap.Holds value value) (room : Nat) :
    heap.NestedBeyond room value := by
  obtain ⟨inner, holds, back⟩ := Relation.TransGen.head'_iff.1 circle
  induction room using Nat.twoStepInduction generalizing value inner with
  | zero => exact .nothing value
  | one =>
    obtain ⟨place, rfl⟩ := holds.place
    exact .object place
  | more room ih _ =>
    have circle := Relation.TransGen.tail' back holds
    obtain ⟨next, further, back⟩ := Relation.TransGen.head'_iff.1 circle
    exact .holding holds (ih circle next further back)

/-- The entries of a table with a document are the documents of its values. -/
theorem ok_of_handOutTable {table : Table Value} {entries : List (String × Datum)}
    (done : heap.handOutTable room table = .ok entries) :
    (∀ value ∈ table.values, ∃ datum ∈ entries.map (·.2), heap.handOut room value = .ok datum) ∧
      ∀ datum ∈ entries.map (·.2), ∃ value ∈ table.values, heap.handOut room value = .ok datum := by
  constructor
  · intro value member
    obtain ⟨entry, among, rfl⟩ := List.mem_map.1 member
    obtain ⟨pair, paired, made⟩ := (ok_of_mapM done).1 entry among
    obtain ⟨datum, found, same⟩ := ok_of_bind made
    cases same
    exact ⟨datum, List.mem_map_of_mem paired, found⟩
  · intro datum member
    obtain ⟨pair, paired, rfl⟩ := List.mem_map.1 member
    obtain ⟨entry, among, made⟩ := (ok_of_mapM done).2 pair paired
    obtain ⟨datum, found, same⟩ := ok_of_bind made
    cases same
    exact ⟨entry.2, List.mem_map_of_mem among, found⟩

private theorem handOut_ref (heap : Heap) (room place : Nat) :
    heap.handOut (room + 2) (.ref place) =
      match heap.items? (.ref place), heap.entries? (.ref place) with
      | some items, _ => do return .list (← items.mapM (heap.handOut room))
      | none, some entries => do return .dict (← heap.handOutTable room entries)
      | none, none => .ok ((heap.objects[place]?).elim .null fun object =>
          .text (String.ofList (label object))) := by
  simp only [handOut,items?,entries?,object?]
  rcases heap.objects[place]? with _ | object
  · rfl
  · cases object <;> rfl

theorem error_of_handOut {halt : Halt} (failed : heap.handOut room value = .error halt) :
    halt = .tooDeep ∧ heap.NestedBeyond room value := by
  induction room using Nat.twoStepInduction generalizing value with
  | zero =>
    cases failed
    exact ⟨rfl, .nothing value⟩
  | one =>
    cases value with
    | ref place =>
      cases failed
      exact ⟨rfl, .object place⟩
    | _ => cases failed
  | more room ih _ =>
    cases value with
    | ref place =>
      rw [handOut_ref] at failed
      split at failed
      · rename_i items held
        rcases error_of_bind failed with failed | ⟨_, failed⟩
        · obtain ⟨item, member, failed⟩ := error_of_mapM failed
          obtain ⟨deep, nested⟩ := ih failed
          exact ⟨deep, .holding (.inl ⟨items, held, member⟩) nested⟩
        · cases failed
      · rename_i entries _ held
        rcases error_of_bind failed with failed | ⟨_, failed⟩
        · obtain ⟨entry, member, failed⟩ := error_of_mapM failed
          rcases error_of_bind failed with failed | ⟨_, failed⟩
          · obtain ⟨deep, nested⟩ := ih failed
            exact ⟨deep, .holding (.inr ⟨entries, held, List.mem_map_of_mem member⟩) nested⟩
          · cases failed
        · cases failed
      · cases failed
    | _ => cases failed

theorem NestedBeyond.handOut_ne_ok (nested : heap.NestedBeyond room value) (datum : Datum) :
    heap.handOut room value ≠ .ok datum := by
  induction nested generalizing datum with
  | nothing value => exact fun done => by cases done
  | object place => exact fun done => by cases done
  | @holding room outer inner holds nested ih =>
    intro done
    obtain ⟨place, rfl⟩ := holds.place
    rw [handOut_ref] at done
    rcases holds with ⟨items, held, member⟩ | ⟨entries, held, member⟩
    · rw [held] at done
      obtain ⟨data, done, _⟩ := ok_of_bind done
      obtain ⟨found, _, same⟩ := (ok_of_mapM done).1 inner member
      exact ih found same
    · rw [items?_of_entries? held,held] at done
      obtain ⟨data, done, _⟩ := ok_of_bind done
      obtain ⟨found, _, same⟩ := (ok_of_handOutTable done).1 inner member
      exact ih found same

private theorem handOut_error_iff (halt : Halt) :
    heap.handOut room value = .error halt ↔ halt = .tooDeep ∧ heap.NestedBeyond room value := by
  refine ⟨error_of_handOut, ?_⟩
  rintro ⟨rfl, nested⟩
  cases found : heap.handOut room value with
  | ok datum => exact absurd found (nested.handOut_ne_ok datum)
  | error other => rw [(error_of_handOut found).1]

/-- All numbers that a value is or holds, however deep, have a property. -/
def NumbersIn (heap : Heap) (allowed : Number → Prop) (value : Value) : Prop :=
  ∀ number, Relation.ReflTransGen heap.Holds value (.number number) → allowed number

private theorem numbersIn_ref_iff {allowed : Number → Prop} {place : Nat} :
    heap.NumbersIn allowed (.ref place) ↔
      ∀ inner, heap.Holds (.ref place) inner → heap.NumbersIn allowed inner := by
  constructor
  · intro all inner holds number path
    exact all number (.head holds path)
  · intro each number path
    rcases Relation.ReflTransGen.cases_head path with same | ⟨inner, holds, path⟩
    · cases same
    · exact each inner holds number path

private theorem numbersIn_of_ne_ref {allowed : Number → Prop} (plain : ∀ place, value ≠ .ref place) :
    heap.NumbersIn allowed value ↔ ∀ number, value = .number number → allowed number := by
  constructor
  · rintro all number rfl
    exact all number .refl
  · intro fits number path
    rcases Relation.ReflTransGen.cases_head path with same | ⟨inner, holds, _⟩
    · exact fits number same
    · obtain ⟨place, same⟩ := holds.place
      exact absurd same (plain place)

private theorem holds_of_items {place : Nat} {items : List Value} (held : heap.items? (.ref place) = some items)
    (inner : Value) : heap.Holds (.ref place) inner ↔ inner ∈ items := by
  constructor
  · rintro (⟨others, found, member⟩ | ⟨entries, found, _⟩)
    · rw [held] at found
      cases found
      exact member
    · rw [items?_of_entries? found] at held
      cases held
  · exact fun member => .inl ⟨items, held, member⟩

private theorem holds_of_entries {place : Nat} {entries : Table Value}
    (held : heap.entries? (.ref place) = some entries) (inner : Value) :
    heap.Holds (.ref place) inner ↔ inner ∈ entries.values := by
  constructor
  · rintro (⟨others, found, _⟩ | ⟨others, found, member⟩)
    · rw [items?_of_entries? held] at found
      cases found
    · rw [held] at found
      cases found
      exact member
  · exact fun member => .inr ⟨entries, held, member⟩

private theorem not_holds {place : Nat} {inner : Value} (noItems : heap.items? (.ref place) = none)
    (noEntries : heap.entries? (.ref place) = none) : ¬heap.Holds (.ref place) inner := by
  rintro (⟨_, found, _⟩ | ⟨_, found, _⟩)
  · rw [noItems] at found
    cases found
  · rw [noEntries] at found
    cases found

section Numbers

variable {allowed : Number → Prop} {datum : Datum}

private theorem made_iff_of_plain (plain : ∀ place, value ≠ .ref place)
    (done : heap.handOut (room + 1) value = .ok datum) : datum.Made allowed ↔ heap.NumbersIn allowed value := by
  rw [numbersIn_of_ne_ref plain]
  cases value with
  | ref place => exact absurd rfl (plain place)
  | number value =>
    simp only [handOut,Except.ok.injEq] at done
    subst done
    constructor
    · rintro (_ | _ | fits) _ ⟨⟩
      exact fits
    · exact fun fits => .number (fits value rfl)
  | _ =>
    simp only [handOut,Except.ok.injEq] at done
    subst done
    exact ⟨fun _ => by simp, fun _ => by constructor⟩

/-- Data that are made of values, each of one of them, are well made where the values are. -/
private theorem forall_made_iff {values : List Value} {data : List Datum}
    (each : (∀ value ∈ values, ∃ datum ∈ data, heap.handOut room value = .ok datum) ∧
      ∀ datum ∈ data, ∃ value ∈ values, heap.handOut room value = .ok datum)
    (inner : ∀ {value datum}, heap.handOut room value = .ok datum →
      (datum.Made allowed ↔ heap.NumbersIn allowed value)) :
    (∀ datum ∈ data, datum.Made allowed) ↔ ∀ value ∈ values, heap.NumbersIn allowed value := by
  constructor
  · intro made value member
    obtain ⟨datum, among, done⟩ := each.1 value member
    exact (inner done).1 (made datum among)
  · intro numbers datum among
    obtain ⟨value, member, done⟩ := each.2 datum among
    exact (inner done).2 (numbers value member)

/-- A value with a document gives data of the shapes that documents have, and its numbers are those that
the value holds. -/
theorem made_iff_of_handOut (done : heap.handOut room value = .ok datum) :
    datum.Made allowed ↔ heap.NumbersIn allowed value := by
  induction room using Nat.twoStepInduction generalizing value datum with
  | zero => cases done
  | one =>
    cases value with
    | ref place => cases done
    | _ => exact made_iff_of_plain (by simp) done
  | more room ih _ =>
    cases value with
    | ref place =>
      rw [handOut_ref] at done
      rw [numbersIn_ref_iff]
      split at done
      · rename_i items held
        obtain ⟨data, each, same⟩ := ok_of_bind done
        cases same
        simp only [holds_of_items held]
        exact Datum.made_list_iff.trans (forall_made_iff (ok_of_mapM each) ih)
      · rename_i entries _ held
        obtain ⟨data, each, same⟩ := ok_of_bind done
        cases same
        simp only [holds_of_entries held]
        exact Datum.made_dict_iff.trans (forall_made_iff (ok_of_handOutTable each) ih)
      · rename_i noItems noEntries
        cases done
        refine ⟨fun _ inner holds => absurd holds (not_holds noItems noEntries), fun _ => ?_⟩
        cases heap.objects[place]? <;> constructor
    | _ => exact made_iff_of_plain (by simp) done

end Numbers

/-- Values that go into one document fail together where one of them is nested too deeply. -/
private theorem mapM_handOut_error_iff (view : α → Value) {step : α → Except Halt β}
    (each : ∀ item halt, step item = .error halt ↔ heap.handOut room (view item) = .error halt)
    (items : List α) (halt : Halt) :
    items.mapM step = .error halt ↔
      halt = .tooDeep ∧ ∃ item ∈ items, heap.NestedBeyond room (view item) := by
  constructor
  · intro failed
    obtain ⟨item, member, failed⟩ := error_of_mapM failed
    obtain ⟨deep, nested⟩ := error_of_handOut ((each item halt).1 failed)
    exact ⟨deep, item, member, nested⟩
  · rintro ⟨rfl, item, member, nested⟩
    cases found : items.mapM step with
    | ok values =>
      obtain ⟨value, _, done⟩ := (ok_of_mapM found).1 item member
      have failed := (each item .tooDeep).2 ((handOut_error_iff .tooDeep).2 ⟨rfl, nested⟩)
      rw [done] at failed
      cases failed
    | error other =>
      obtain ⟨item, _, failed⟩ := error_of_mapM found
      rw [(error_of_handOut ((each item other).1 failed)).1]

theorem handOutTable_error_iff (table : Table Value) (halt : Halt) :
    heap.handOutTable room table = .error halt ↔
      halt = .tooDeep ∧ ∃ value ∈ table.values, heap.NestedBeyond room value := by
  have each (entry : String × Value) (halt : Halt) :
      (do return (entry.1, ← heap.handOut room entry.2) : Except Halt (String × Datum)) =
        .error halt ↔ heap.handOut room entry.2 = .error halt := by
    cases heap.handOut room entry.2 <;> simp [bind,Except.bind,pure,Except.pure]
  rw [handOutTable,mapM_handOut_error_iff (·.2) each]
  constructor
  · rintro ⟨deep, entry, member, nested⟩
    exact ⟨deep, entry.2, List.mem_map_of_mem member, nested⟩
  · rintro ⟨deep, _, member, nested⟩
    obtain ⟨entry, among, rfl⟩ := List.mem_map.1 member
    exact ⟨deep, entry, among, nested⟩

end Heap

end Inyandiko
