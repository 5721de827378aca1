import Inyandiko.Host.Kit
import Inyandiko.Proofs.Likeness.Evaluation

/-! The functions of the kit under a likeness of heaps with themselves. They have to do with the values they
are given and with what these lead to, and fail by crashes or where a value is nested too deeply. -/
namespace Inyandiko

instance : Carries Char := ⟨fun _ => []⟩
instance : Carries Template.Naming := ⟨fun _ => []⟩

namespace Likeness

variable {host : Host} (L : Likeness host)

private theorem chars {text : Text.Chars} : Carries.All L.Fine text := Carries.all_list.2 fun _ _ => nofun

private theorem lifted {α : Type} [Carries α] {outcome : Except Halt α}
    (halts : ∀ halt, outcome = .error halt → L.Halts halt)
    (fine : ∀ value, outcome = .ok value → Carries.All L.Fine value) :
    L.Rel (liftExcept outcome) (liftExcept outcome) := by
  cases outcome with
  | ok value => exact L.pure (fine value rfl)
  | error halt => exact L.throw (halts halt rfl)

variable (equal : ∀ {heap heap' : Heap}, L.Alike heap heap' → heap' = heap)
  (crashes : ∀ crash, L.Halts (.crash crash))

include crashes in
private theorem halts_of_mapError {α : Type} {outcome : Except Crash α} {halt : Halt}
    (failed : outcome.mapError Halt.crash = .error halt) : L.Halts halt := by
  cases outcome with
  | ok value => cases failed
  | error crash =>
    cases failed
    exact crashes crash

include equal crashes

section Templates

private theorem descend {value : Value} (fine : L.Fine value) (names : List Text.Chars) :
    L.Rel (Template.descend value names) (Template.descend value names) := by
  induction names generalizing value with
  | nil => exact L.pure (Carries.all_value.2 fine)
  | cons name names ih =>
    cases name with
    | nil => exact L.throw (crashes _)
    | cons c name =>
      have taken : L.Rel (attribute? value (String.ofList (c :: name)))
          (attribute? value (String.ofList (c :: name))) :=
        fun heap heap' alike => L.attributeOf alike fine (by rw [equal alike]) _
      refine L.bind taken fun found given => ?_
      cases found with
      | some found => exact ih (Carries.all_value.1 (Carries.all_some.1 given))
      | none =>
        refine L.ask fun heap heap' alike => ?_
        rw [equal alike]
        exact L.throw (crashes _)

variable {args : List Value} (given : ∀ arg ∈ args, L.Fine arg)

include given

private theorem fill (naming : Template.Naming) (field : Text.Chars) :
    L.Rel (Template.fill args naming field) (Template.fill args naming field) := by
  unfold Template.fill
  split
  · exact L.pure (Carries.all_pair.2 ⟨L.chars, nofun⟩)
  · refine L.bind (L.lifted (fun _ failed => L.halts_of_mapError crashes failed) fun _ _ =>
      Carries.all_pair.2 ⟨Carries.all_nat, nofun⟩) fun chosen _ => ?_
    dsimp only
    split
    · exact L.throw (crashes _)
    · rename_i found
      refine L.bind (L.descend equal crashes (given _ (List.mem_of_getElem? found)) _) fun value _ => ?_
      refine L.ask fun heap heap' alike => ?_
      rw [equal alike]
      exact L.bind (L.lifted (fun _ failed => L.halts_hostText failed) fun _ _ => Carries.all_string)
        fun _ _ => L.pure (Carries.all_pair.2 ⟨L.chars, nofun⟩)

private theorem render (naming : Template.Naming) (parts : List (Except Crash Template.Part)) :
    L.Rel (Template.render args naming parts) (Template.render args naming parts) := by
  induction parts generalizing naming with
  | nil => exact L.pure L.chars
  | cons part parts ih =>
    rcases part with crash | (text | name)
    · exact L.throw (crashes crash)
    · exact L.bind (ih naming) fun _ _ => L.pure L.chars
    · exact L.bind (L.fill equal crashes given naming name) fun _ _ =>
        L.bind (ih _) fun _ _ => L.pure L.chars

private theorem format (template : String) : L.Rel (Template.format template args) (Template.format template args) :=
  L.bind (L.render equal crashes given _ _) fun _ _ => L.datum (by simp)

end Templates

/-- What the kit calls does the same, if counting up does. -/
theorem kit {callee : Callee} {args : List Value} (given : ∀ arg ∈ args, L.Fine arg)
    (count : ∀ name owner, callee = .function name owner → L.Rel (Kit.countUp owner) (Kit.countUp owner)) :
    L.Rel (Kit.call callee args) (Kit.call callee args) := by
  have extremes (direction : Ordering) : L.Rel (do return Kit.extreme direction (← Kit.numbers args))
      (do return Kit.extreme direction (← Kit.numbers args)) := by
    refine L.bind (L.lift (fun _ failed => ?_) fun _ _ => Carries.all_list.2 fun _ _ => Carries.all_number)
      fun numbers _ => L.datum (by cases numbers <;> simp [Kit.extreme])
    unfold Kit.numbers at failed
    split at failed
    · cases failed
      exact crashes _
    · obtain ⟨item, -, failed⟩ := error_of_mapM failed
      split at failed <;> cases failed
      exact crashes _
  cases callee with
  | member name receiver =>
    cases receiver with
    | text template => exact L.format equal crashes given template
    | _ => exact L.throw (crashes _)
  | function name owner =>
    change L.Rel (Kit.callFunction name owner args) (Kit.callFunction name owner args)
    unfold Kit.callFunction
    split
    case h_1 | h_2 => exact extremes _
    case h_4 =>
      split
      · exact L.datum (by simp)
      · exact L.throw (crashes _)
    case h_7 | h_8 => exact L.allocate rfl given
    case h_12 => exact count _ _ rfl
    case h_5 | h_11 | h_13 => exact L.throw (crashes _)
    all_goals exact L.datum (by simp [Value.int])

end Likeness

end Inyandiko
