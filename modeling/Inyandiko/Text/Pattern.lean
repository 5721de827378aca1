import Inyandiko.Text.Blank

/-! Patterns of texts, matched from the left. A run of characters takes as many as it can; if what follows does
not match then, it gives characters back, one after the other, and keeps one at least. -/
namespace Inyandiko.Text

inductive Pattern.Part
  | one (c : Char)
  | run (accepts : Char → Bool)
  /-- The end of the text, or the place before a line break that ends it. -/
  | finish

abbrev Pattern := List Pattern.Part

namespace Pattern

/-- Whether a pattern matches a beginning of a text. -/
def isMatch : Pattern → Chars → Bool
  | [], _ => true
  | .one c :: rest, text =>
    match text with
    | [] => false
    | first :: text => first = c && isMatch rest text
  | .run accepts :: rest, text =>
    let most := (text.takeWhile accepts).length
    (List.range most).reverse.any fun kept => isMatch rest (text.drop (kept + 1))
  | .finish :: rest, text => (text = [] || text = ['\n']) && isMatch rest text

theorem isMatch_one {c : Char} {rest : Pattern} {text : Chars} :
    isMatch (.one c :: rest) text = true ↔ ∃ back, text = c :: back ∧ isMatch rest back = true := by
  cases text with
  | nil => simp [isMatch]
  | cons first back =>
    simp only [isMatch,Bool.and_eq_true,decide_eq_true_eq,List.cons.injEq]
    exact ⟨fun found => ⟨back, ⟨found.1, rfl⟩, found.2⟩, by rintro ⟨_, ⟨rfl, rfl⟩, found⟩; exact ⟨rfl, found⟩⟩

/-- Giving characters back in turn tries every run that there is. -/
theorem isMatch_run {accepts : Char → Bool} {rest : Pattern} {text : Chars} :
    isMatch (.run accepts :: rest) text = true ↔
      ∃ front back, text = front ++ back ∧ front ≠ [] ∧ front.all accepts = true ∧ isMatch rest back = true := by
  simp only [isMatch,List.any_eq_true,List.mem_reverse,List.mem_range]
  constructor
  · rintro ⟨kept, within, found⟩
    have longest : text.takeWhile accepts ++ text.dropWhile accepts = text := List.takeWhile_append_dropWhile
    have taken : text.take (kept + 1) = (text.takeWhile accepts).take (kept + 1) := by
      conv => lhs; rw [← longest]
      rw [List.take_append_of_le_length within]
    refine ⟨text.take (kept + 1), text.drop (kept + 1), (List.take_append_drop _ _).symm, ?_, ?_, found⟩
    · rw [taken]
      exact List.ne_nil_of_length_pos (by rw [List.length_take]; omega)
    · rw [taken]
      exact List.all_eq_true.mpr fun c member =>
        List.all_eq_true.mp List.all_takeWhile c (List.mem_of_mem_take member)
  · rintro ⟨front, back, rfl, some_, all, found⟩
    have positive : 0 < front.length := List.length_pos_iff.mpr some_
    refine ⟨front.length - 1, ?_, ?_⟩
    · rw [List.takeWhile_append_of_pos fun c member => List.all_eq_true.mp all c member,List.length_append]
      omega
    · rwa [Nat.sub_add_cancel positive,List.drop_left]

theorem isMatch_finish {text : Chars} : isMatch [.finish] text = true ↔ text = [] ∨ text = ['\n'] := by
  simp [isMatch]

end Pattern

end Inyandiko.Text
