import Inyandiko.Proofs.Discipline

/-! Heaps that scripts cannot tell apart. Two objects are alike when they are the same, or when they are
objects or functions of the host with one name and the same public attributes. Whatever scripts find out
about a value (its form in a text, its items, entries and members) is the same in heaps that are alike. -/
namespace Inyandiko

open Text

/-- Objects of the host with one name and the same public attributes. -/
inductive Object.Akin : Object → Object → Prop
  | host (name : String) {attributes attributes' : Table Value}
      (agree : ∀ key, isPrivateName key = false → attributes'.get? key = attributes.get? key) :
      Akin (.host name attributes) (.host name attributes')
  | function (name : String) (owner : Option Nat) {attributes attributes' : Table Value}
      (agree : ∀ key, isPrivateName key = false → attributes'.get? key = attributes.get? key) :
      Akin (.function name owner attributes) (.function name owner attributes')

/-- Objects that differ at most in private attributes. -/
def Object.Alike (object object' : Object) : Prop := object' = object ∨ object.Akin object'

/-- Heaps whose objects differ at most in private attributes. -/
structure Heap.Alike (heap heap' : Heap) : Prop where
  runtime : heap'.runtime = heap.runtime
  size : heap'.objects.size = heap.objects.size
  objects {place : Nat} {object : Object} : heap.objects[place]? = some object →
    ∃ object', heap'.objects[place]? = some object' ∧ object.Alike object'

namespace Heap.Alike

variable {heap heap' : Heap}

theorem refl (heap : Heap) : heap.Alike heap := ⟨rfl, rfl, fun found => ⟨_, found, .inl rfl⟩⟩

theorem alloc (alike : heap.Alike heap') {object object' : Object} (same : object.Alike object') :
    (heap.alloc object).2.Alike (heap'.alloc object').2 := by
  refine ⟨alike.runtime, by simp [Heap.alloc,alike.size], fun found => ?_⟩
  simp only [Heap.alloc,Array.getElem?_push,alike.size] at found ⊢
  split at found
  · cases found
    exact ⟨object', if_pos ‹_›, same⟩
  · simp only [if_neg ‹_›]
    exact alike.objects found

theorem set (alike : heap.Alike heap') (place : Nat) {object object' : Object}
    (same : object.Alike object') : (heap.set place object).Alike (heap'.set place object') := by
  refine ⟨alike.runtime, by simp [Heap.set,alike.size], fun found => ?_⟩
  simp only [Heap.set,Array.getElem?_setIfInBounds,alike.size] at found ⊢
  split at found
  · split at found
    · cases found
      exact ⟨object', by simp only [if_pos ‹_ = _›,if_pos ‹_ < _›], same⟩
    · cases found
  · simp only [if_neg ‹_›]
    exact alike.objects found

/-- A place holds the same object in both heaps, or two objects of the host. -/
theorem at_place (alike : heap.Alike heap') (place : Nat) :
    heap'.objects[place]? = heap.objects[place]? ∨
      ∃ object object', heap.objects[place]? = some object ∧ heap'.objects[place]? = some object' ∧
        object.Akin object' := by
  cases found : heap.objects[place]? with
  | none =>
    left
    simpa [alike.size] using found
  | some object =>
    obtain ⟨object', found', rfl | akin⟩ := alike.objects found
    · exact .inl found'
    · exact .inr ⟨object, object', rfl, found', akin⟩

theorem object (alike : heap.Alike heap') (value : Value) :
    heap'.object? value = heap.object? value ∨
      ∃ object object', heap.object? value = some object ∧ heap'.object? value = some object' ∧
        object.Akin object' := by
  cases value with
  | ref place => exact alike.at_place place
  | _ => exact .inl rfl

section Answers

variable (alike : heap.Alike heap') (value : Value)

include alike

theorem items : heap'.items? value = heap.items? value := by
  rcases alike.object value with same | ⟨_, _, one, two, _ | _⟩
  · simp only [Heap.items?,same]
  all_goals simp only [Heap.items?,one,two]

theorem entries : heap'.entries? value = heap.entries? value := by
  rcases alike.object value with same | ⟨_, _, one, two, _ | _⟩
  · simp only [Heap.entries?,same]
  all_goals simp only [Heap.entries?,one,two]

theorem callable : heap'.isCallable value = heap.isCallable value := by
  rcases alike.object value with same | ⟨_, _, one, two, _ | _⟩
  · simp only [Heap.isCallable,same]
  all_goals simp only [Heap.isCallable,one,two]

theorem void : heap'.isVoid value = heap.isVoid value := by
  simp only [Heap.isVoid,alike.items,alike.entries]

theorem kind : heap'.kindName value = heap.kindName value := by
  rcases alike.object value with same | ⟨_, _, one, two, _ | _⟩
  · simp only [Heap.kindName,same]
  all_goals simp only [Heap.kindName,one,two]

theorem method (name : String) : heap'.method? value name = heap.method? value name := by
  rcases alike.object value with same | ⟨_, _, one, two, _ | _⟩
  · simp only [Heap.method?,same]
  all_goals
    cases value with
    | ref place => simp only [Heap.method?,one,two]
    | _ => cases one

end Answers

section Texts

variable (alike : heap.Alike heap')

include alike

private theorem inspect (depth : Nat) (trail : List Nat) (value : Value) :
    heap'.inspect depth trail value = heap.inspect depth trail value := by
  induction depth generalizing trail value with
  | zero => cases value <;> simp only [Heap.inspect]
  | succ depth ih =>
    have inner (trail : List Nat) : heap'.inspect depth trail = heap.inspect depth trail :=
      funext (ih trail)
    cases value with
    | ref place =>
      rcases alike.at_place place with same | ⟨_, _, one, two, _ | _⟩
      · simp only [Heap.inspect,same,inner]
      all_goals
        simp only [Heap.inspect,one,two]
        rfl
    | _ => simp only [Heap.inspect]

private theorem document (depth : Nat) (trail : List Nat) (value : Value) :
    heap'.document depth trail value = heap.document depth trail value := by
  induction depth generalizing trail value with
  | zero => rcases value with _ | _ | (_ | _) | _ | _ <;> simp only [Heap.document]
  | succ depth ih =>
    have inner (trail : List Nat) : heap'.document depth trail = heap.document depth trail :=
      funext (ih trail)
    rcases value with _ | _ | (_ | _) | _ | place
    case ref =>
      rcases alike.at_place place with same | ⟨_, _, one, two, _ | _⟩
      · simp only [Heap.document,same,inner]
      all_goals
        simp only [Heap.document,one,two]
        rfl
    all_goals simp only [Heap.document]

private theorem display (room : Nat) (value : Value) : heap'.display room value = heap.display room value := by
  induction room using Nat.strongRecOn generalizing value with
  | ind room ih =>
    have inner (room' : Nat) (less : room' < room) (value : Value) :
        heap'.display room' value = heap.display room' value := ih room' less value
    rcases value with _ | _ | (_ | _) | _ | place
    case ref =>
      rcases alike.at_place place with same | ⟨_, _, one, two, _ | _⟩
      · rw [Heap.display,Heap.display,same]
        split
        case h_1 | h_2 =>
          split
          · rename_i room
            simp only [inner room (by omega)]
          · rfl
        all_goals simp only [alike.document]
      all_goals
        rw [Heap.display,Heap.display,one,two]
        rfl
    all_goals simp only [Heap.display]

private theorem contentsFrom (depth : Nat) (trail : List Nat) (value : Value) :
    heap'.contentsFrom depth trail value = heap.contentsFrom depth trail value := by
  induction depth generalizing trail value with
  | zero => cases value <;> simp only [Heap.contentsFrom]
  | succ depth ih =>
    have inner (trail : List Nat) : heap'.contentsFrom depth trail = heap.contentsFrom depth trail :=
      funext (ih trail)
    cases value with
    | ref place =>
      rcases alike.at_place place with same | ⟨_, _, one, two, _ | _⟩
      · simp only [Heap.contentsFrom,same,inner]
      all_goals simp only [Heap.contentsFrom,one,two]
    | _ => simp only [Heap.contentsFrom]

theorem hostText (value : Value) : heap'.hostText value = heap.hostText value := by
  cases value <;> simp only [Heap.hostText,alike.inspect,alike.runtime]

theorem displayText (value : Value) : heap'.displayText value = heap.displayText value := by
  simp only [Heap.displayText,alike.display,alike.runtime]

theorem sameAnswers : heap.SameAnswers heap' :=
  ⟨alike.callable, alike.entries, alike.contentsFrom nestingLimit [], alike.kind⟩

end Texts

end Heap.Alike

end Inyandiko
