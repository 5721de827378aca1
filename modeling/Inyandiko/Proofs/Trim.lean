import Inyandiko.Text.Name

/-! Trimming and leading names. A text that neither begins nor ends with a blank is what is left of
it with blanks around it, and a name is read up to the first character that cannot belong to it. -/
namespace Inyandiko.Text

theorem forall_of_all {α : Type} {p : α → Prop} [DecidablePred p] {items : List α}
    (every : items.all (fun item => decide (p item)) = true) : ∀ item ∈ items, p item :=
  fun item member => of_decide_eq_true (List.all_eq_true.mp every item member)

/-- A number of spaces. -/
def spaces (count : Nat) : Chars := List.replicate count ' '

theorem all_isBlank_spaces (count : Nat) : (spaces count).all isBlank = true := by
  rw [List.all_eq_true]
  intro c member
  rw [(List.mem_replicate.mp member).2]
  decide

theorem ne_of_isBlank {c other : Char} (blank : isBlank c = true) (solid : isBlank other = false) : c ≠ other := by
  rintro rfl
  rw [solid] at blank
  cases blank

/-- A text that neither begins nor ends with a blank. -/
structure Trimmed (text : Chars) : Prop where
  first : text.head?.any isBlank = false
  last : text.getLast?.any isBlank = false

theorem first_append {first : Chars} (nonempty : first ≠ []) (solid : first.head?.any isBlank = false)
    (rest : Chars) : (first ++ rest).head?.any isBlank = false := by
  cases first with
  | nil => exact absurd rfl nonempty
  | cons c more => exact solid

theorem last_append {rest : Chars} (nonempty : rest ≠ []) (solid : rest.getLast?.any isBlank = false)
    (first : Chars) : (first ++ rest).getLast?.any isBlank = false := by
  rw [List.getLast?_eq_some_getLast nonempty] at solid
  rw [List.getLast?_append,List.getLast?_eq_some_getLast nonempty,Option.some_or]
  exact solid

theorem trimStart_blanks {pad : Chars} (blank : pad.all isBlank = true) (text : Chars) :
    trimStart (pad ++ text) = trimStart text := by
  rw [trimStart,trimStart,List.dropWhile_append_of_pos (List.all_eq_true.mp blank)]

theorem trimStart_of_first {text : Chars} (first : text.head?.any isBlank = false) :
    trimStart text = text := by
  cases text with
  | nil => rfl
  | cons c rest =>
    have solid : isBlank c = false := first
    simp [trimStart,solid]

private theorem trimEnd_eq (text : Chars) : trimEnd text = (trimStart text.reverse).reverse := rfl

theorem trimEnd_blanks {pad : Chars} (blank : pad.all isBlank = true) (text : Chars) :
    trimEnd (text ++ pad) = trimEnd text := by
  rw [trimEnd_eq,trimEnd_eq,List.reverse_append,trimStart_blanks (by rwa [List.all_reverse])]

theorem trimEnd_of_last {text : Chars} (last : text.getLast?.any isBlank = false) :
    trimEnd text = text := by
  rw [trimEnd_eq,trimStart_of_first (by rwa [List.head?_reverse]),List.reverse_reverse]

theorem Trimmed.trim_eq {text : Chars} (trimmed : Trimmed text) : trim text = text := by
  rw [trim,trimStart_of_first trimmed.first,trimEnd_of_last trimmed.last]

theorem Trimmed.trim_pad {text : Chars} (trimmed : Trimmed text) {before after : Chars}
    (blankBefore : before.all isBlank = true) (blankAfter : after.all isBlank = true) :
    trim (before ++ text ++ after) = text := by
  rw [trim,List.append_assoc,trimStart_blanks blankBefore]
  cases text with
  | nil =>
    have gone : trimStart after = [] := by
      have := trimStart_blanks blankAfter []
      rwa [List.append_nil] at this
    rw [List.nil_append,gone]
    rfl
  | cons c rest =>
    have kept : trimStart (c :: rest ++ after) = c :: rest ++ after := trimStart_of_first trimmed.first
    rw [kept,trimEnd_blanks blankAfter,trimEnd_of_last trimmed.last]

theorem Trimmed.trim_spaces {text : Chars} (trimmed : Trimmed text) (gap : Nat) : trim (spaces gap ++ text) = text := by
  have padded := trimmed.trim_pad (all_isBlank_spaces gap) (show ([] : Chars).all isBlank = true from rfl)
  rwa [List.append_nil] at padded

theorem isSuffix_trimStart (text : Chars) : trimStart text <:+ text := List.dropWhile_suffix _

theorem isPrefix_trimEnd (text : Chars) : trimEnd text <+: text := by
  rw [← List.reverse_suffix,trimEnd_eq,List.reverse_reverse]
  exact isSuffix_trimStart text.reverse

theorem isInfix_trim (text : Chars) : trim text <:+: text :=
  (isPrefix_trimEnd _).isInfix.trans (isSuffix_trimStart text).isInfix

theorem first_trimStart (text : Chars) : (trimStart text).head?.any isBlank = false := by
  rw [trimStart]
  have first := List.head?_dropWhile_not isBlank text
  cases found : (text.dropWhile isBlank).head? with
  | none => rfl
  | some c =>
    rw [found] at first
    simpa using first

private theorem last_trimEnd (text : Chars) : (trimEnd text).getLast?.any isBlank = false := by
  rw [trimEnd_eq,List.getLast?_reverse]
  exact first_trimStart text.reverse

theorem trimmed_trim (text : Chars) : Trimmed (trim text) where
  first := by
    -- what is trimmed at its end begins as before
    rcases prefixed : trim text with _ | ⟨c, rest⟩
    · rfl
    · obtain ⟨after, whole⟩ := isPrefix_trimEnd (trimStart text)
      have first := first_trimStart text
      rw [← whole] at first
      rw [trim] at prefixed
      rw [prefixed] at first
      exact first
  last := last_trimEnd _

theorem trimStart_concat {c : Char} (solid : isBlank c = false) (text : Chars) :
    trimStart (text ++ [c]) = trimStart text ++ [c] := by
  rw [trimStart,trimStart,List.dropWhile_append]
  split
  · rename_i blank
    rw [List.isEmpty_iff.mp blank,List.dropWhile_cons_of_neg (by simp [solid]),List.nil_append]
  · rfl

theorem trim_blanks {pad : Chars} (blank : pad.all isBlank = true) (text : Chars) :
    trim (text ++ pad) = trim text := by
  rw [trim,trim,trimStart,List.dropWhile_append]
  split
  · rename_i gone
    have padding := trimStart_blanks blank []
    rw [List.append_nil] at padding
    rw [trimStart,List.isEmpty_iff.mp gone,← trimStart,padding]
    rfl
  · exact trimEnd_blanks blank _

theorem trim_of_last {text : Chars} (last : text.getLast?.any isBlank = false) : trim text = trimStart text := by
  refine trimEnd_of_last ?_
  obtain ⟨front, eq⟩ := isSuffix_trimStart text
  rw [← eq,List.getLast?_append] at last
  cases found : (trimStart text).getLast? with
  | none => rfl
  | some c => simpa [found] using last

theorem exists_trimEnd (text : Chars) : ∃ pad, pad.all isBlank = true ∧ text = trimEnd text ++ pad := by
  refine ⟨(text.reverse.takeWhile isBlank).reverse, ?_, ?_⟩
  · rw [List.all_reverse]
    exact List.all_takeWhile
  · rw [trimEnd,← List.reverse_append,List.takeWhile_append_dropWhile,List.reverse_reverse]

/-- Whether a text is a name and nothing else. -/
def isIdentifier : Chars → Bool
  | [] => false
  | c :: rest => isNameStart c && rest.all isNamePart

theorem span_append {p : Char → Bool} {first rest : Chars} (inside : first.all p = true)
    (stops : rest.head?.any p = false) :
    (first ++ rest).takeWhile p = first ∧ (first ++ rest).dropWhile p = rest := by
  rw [List.takeWhile_append_of_pos (List.all_eq_true.mp inside),
    List.dropWhile_append_of_pos (List.all_eq_true.mp inside)]
  cases rest with
  | nil => exact ⟨List.append_nil first, rfl⟩
  | cons c rest =>
    have out : p c = false := stops
    simp [out]

theorem takeWhile_append_of_stops {p : Char → Bool} {more : Chars} (stops : more.head?.any p = false)
    (text : Chars) : (text ++ more).takeWhile p = text.takeWhile p := by
  induction text with
  | nil =>
    cases more with
    | nil => rfl
    | cons c rest => exact List.takeWhile_cons_of_neg (by simpa using stops)
  | cons c rest ih => simp only [List.cons_append,List.takeWhile_cons,ih]

theorem leadingName?_append {name rest : Chars} (identifier : isIdentifier name = true)
    (stops : rest.head?.any isNamePart = false) : leadingName? (name ++ rest) = some (name, rest) := by
  cases name with
  | nil => cases identifier
  | cons c tail =>
    simp only [isIdentifier,Bool.and_eq_true] at identifier
    obtain ⟨taken, left⟩ := span_append identifier.2 stops
    simp only [List.cons_append,leadingName?,identifier.1,if_true,taken,left]

theorem leadingName?_none {c : Char} (other : isNameStart c = false) (rest : Chars) :
    leadingName? (c :: rest) = none := by
  simp [leadingName?,other]

end Inyandiko.Text
