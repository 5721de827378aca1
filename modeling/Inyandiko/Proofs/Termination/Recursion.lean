import Inyandiko.Proofs.Termination.Size

/-! Recursions that go down. The operands of an expression are shorter than the expression, and so is what
stands between its parentheses; a step of a path takes a character at least, and a statement a line. So
the bounds that these recursions are given never make a difference. -/
namespace Inyandiko

open Text Source

section Descent

variable {α β : Type} {measure : α → Nat} {step : (α → β) → α → β}

/-- A recursion goes down when what its step makes of something depends on smaller things only. -/
def Descends (measure : α → Nat) (step : (α → β) → α → β) : Prop :=
  ∀ (one other : α → β) (item : α),
    (∀ smaller, measure smaller < measure item → one smaller = other smaller) → step one item = step other item

/-- A recursion taken a number of times, with something else at the bottom. -/
def unrolled (step : (α → β) → α → β) (bottom : α → β) : Nat → α → β
  | 0 => bottom
  | depth + 1 => step (unrolled step bottom depth)

/-- A recursion that goes down does not reach the bottom when it is taken often enough. -/
private theorem Descends.unrolled_eq (descends : Descends measure step) (bottom bottom' : α → β) {item : α}
    {depth depth' : Nat} (deep : measure item < depth) (deep' : measure item < depth') :
    unrolled step bottom depth item = unrolled step bottom' depth' item := by
  induction depth generalizing item depth' with
  | zero => cases deep
  | succ depth ih =>
    cases depth' with
    | zero => cases deep'
    | succ depth' => exact descends _ _ item fun smaller less => ih (by omega) (by omega)

private theorem Descends.unrolled_succ (descends : Descends measure step) {bottom : α → β}
    (right : ∀ more item, measure item = 0 → bottom item = step more item) {item : α} {depth : Nat}
    (deep : measure item ≤ depth) :
    unrolled step bottom depth item = unrolled step bottom (depth + 1) item := by
  induction depth generalizing item with
  | zero => exact right _ item (Nat.le_zero.mp deep)
  | succ depth ih => exact descends _ _ item fun smaller less => ih (by omega)

end Descent

/-- The value of a token, given how the expressions in it are evaluated. -/
def evaluateStep (lookup : String → Option Value) (operand : Token → HeapM Value) (token : Token) :
    HeapM Value := do
  let text := trim token
  if text = [] then throw (.ofCause .emptyToken)
  if let some value ← simpleValue? lookup text then return value
  let inner := stripParens text
  if inner ≠ text then operand inner else evaluateOperators operand text

private theorem evaluateWithin_eq (lookup : String → Option Value) (depth : Nat) :
    evaluateWithin lookup depth = unrolled (evaluateStep lookup) (fun _ => throw .tooDeep) depth := by
  induction depth with
  | zero => rfl
  | succ depth ih =>
    funext token
    rw [evaluateWithin,ih]
    rfl

private theorem stripParens_sublist (text : Chars) : (stripParens text).Sublist text := by
  have inner : (trim ((trim text).drop 1).dropLast).Sublist (trim text) :=
    (trim_sublist _).trans ((List.dropLast_sublist _).trans (List.drop_sublist 1 _))
  unfold stripParens
  dsimp only
  split
  · split
    · exact inner.trans (trim_sublist text)
    · exact trim_sublist text
  · exact trim_sublist text

private theorem length_stripParens {text : Chars} (stripped : stripParens text ≠ text) :
    (stripParens text).length < text.length := by
  have sublist := stripParens_sublist text
  exact Nat.lt_of_le_of_ne sublist.length_le fun same => stripped (sublist.eq_of_length same)

namespace Operator

private theorem index_lastAmong {α : Type} {spell : α → Chars} {operators : List α} {depth : Int} {skip : Nat}
    {last : Option (Nat × α)} {spots : List Spot} {index : Nat} {operator : α}
    (found : lastAmong spell operators depth skip last spots = some (index, operator)) :
    last = some (index, operator) ∨ ∃ spot ∈ spots, spot.index = index := by
  induction spots generalizing depth skip last with
  | nil => exact .inl found
  | cons spot spots ih =>
    have later {depth : Int} {skip : Nat}
        (found : lastAmong spell operators depth skip last spots = some (index, operator)) :
        last = some (index, operator) ∨ ∃ other ∈ spot :: spots, other.index = index := by
      rcases ih found with here | ⟨other, member, same⟩
      · exact .inl here
      · exact .inr ⟨other, List.mem_cons_of_mem _ member, same⟩
    simp only [lastAmong] at found
    split at found
    · exact later found
    · split at found
      · exact later found
      · split at found
        · exact later found
        · split at found
          · rcases ih found with here | ⟨other, member, same⟩
            · cases here
              exact .inr ⟨spot, List.mem_cons_self, rfl⟩
            · exact .inr ⟨other, List.mem_cons_of_mem _ member, same⟩
          · exact later found

private theorem length_split? {text : Chars} {tiers : List (List Operator)} {left right : Token} {operator : Operator}
    (split : split? text tiers = some (left, operator, right)) :
    left.length < text.length ∧ right.length < text.length := by
  induction tiers with
  | nil => cases split
  | cons tier tiers ih =>
    simp only [split?] at split
    split at split
    · rename_i index found located
      cases split
      rcases index_lastAmong located with none | ⟨spot, member, rfl⟩
      · cases none
      · have inside : spot.index < 0 + text.length := (Scan.index_bounds member).2
        have wide : 0 < operator.spelling.length := by cases operator <;> decide
        have first := length_trim_le (text.take spot.index)
        have second := length_trim_le (text.drop (spot.index + operator.spelling.length))
        rw [List.length_take] at first
        rw [List.length_drop] at second
        omega
    · exact ih split

end Operator

private theorem evaluateOperators_congr {one other : Token → HeapM Value} {text : Chars}
    (same : ∀ token : Token, token.length < text.length → one token = other token) :
    evaluateOperators one text = evaluateOperators other text := by
  unfold evaluateOperators
  split
  · rename_i left operator right split
    obtain ⟨first, second⟩ := Operator.length_split? split
    rw [same left first,same right second]
  · split
    · rename_i c rest _
      rw [same (c :: rest) (by simp)]
    · rename_i c rest _
      have shorter := length_trim_le (c :: rest)
      dsimp only
      rw [same (trim (c :: rest)) (by rw [List.length_cons]; omega)]
    · rename_i c rest _
      have shorter := length_trim_le (c :: rest)
      dsimp only
      rw [same (trim (c :: rest)) (by rw [List.length_cons]; omega)]
    · rfl

private theorem evaluateStep_descends (lookup : String → Option Value) :
    Descends List.length (evaluateStep lookup) := by
  intro one other token same
  have trimmed := length_trim_le token
  have operators : evaluateOperators one (trim token) = evaluateOperators other (trim token) :=
    evaluateOperators_congr fun shorter less => same shorter (by omega)
  unfold evaluateStep
  dsimp only
  rw [operators]
  by_cases stripped : stripParens (trim token) ≠ trim token
  · have less := length_stripParens stripped
    rw [same (stripParens (trim token)) (by omega)]
  · simp only [if_neg stripped]

/-- As many levels as a token has characters are enough for it, and one more. -/
theorem evaluateWithin_settles (lookup : String → Option Value) (bottom : Token → HeapM Value)
    {token : Token} {depth : Nat} (deep : token.length < depth) :
    unrolled (evaluateStep lookup) bottom depth token = evaluateWithin lookup (token.length + 1) token := by
  rw [evaluateWithin_eq]
  exact (evaluateStep_descends lookup).unrolled_eq _ _ deep (Nat.lt_succ_self _)

namespace Path

/-- Reads steps, given how the steps after the first one are read. -/
def stepsFrom (more : Chars → Except Crash (Option (List Step))) :
    Chars → Except Crash (Option (List Step))
  | [] => .ok (some [])
  | '.' :: rest =>
    match leadingName? rest with
    | some (name, rest) => followedBy (.key (String.ofList name)) (more rest)
    | none => .ok none
  | '[' :: rest =>
    match rest.dropWhile (· ≠ ']') with
    | ']' :: after => do
      let inner := trim (rest.takeWhile (· ≠ ']'))
      if inner.isEmpty || !inner.all isDigit then return none
      else
        let position ← Numeral.readInt (String.ofList inner)
        followedBy (.index position) (more after)
    | _ => .ok none
  | _ => .ok none

private theorem steps_eq (fuel : Nat) :
    steps fuel = unrolled stepsFrom (fun text => .ok (if text = [] then some [] else none)) fuel := by
  induction fuel with
  | zero =>
    funext text
    cases text <;> rfl
  | succ fuel ih =>
    funext text
    rw [unrolled,← ih]
    unfold stepsFrom
    split
    · rfl
    · rfl
    · rfl
    · rename_i nonempty undotted unbracketed
      rw [steps]
      · exact nofun
      · exact nonempty
      · exact fun _ rest _ => undotted rest
      · exact fun _ rest _ => unbracketed rest

private theorem stepsFrom_descends : Descends List.length stepsFrom := by
  intro one other text same
  unfold stepsFrom
  split
  · rfl
  · rename_i rest
    cases named : leadingName? rest with
    | none => rfl
    | some found =>
      obtain ⟨name, after⟩ := found
      have shorter := length_leadingName? named
      dsimp only
      rw [same after (by rw [List.length_cons]; omega)]
  · rename_i rest
    split
    · rename_i after closed
      have shorter := (List.dropWhile_suffix (l := rest) (· ≠ ']')).length_le
      rw [closed,List.length_cons] at shorter
      rw [same after (by rw [List.length_cons]; omega)]
    · rfl
  · rfl

/-- As many steps as a text has characters are enough for it. -/
theorem steps_settle (bottom : Chars → Except Crash (Option (List Step))) {text : Chars} {depth : Nat}
    (deep : text.length < depth) : unrolled stepsFrom bottom depth text = steps text.length text := by
  have right (more : Chars → Except Crash (Option (List Step))) (text : Chars) (empty : text.length = 0) :
      .ok (if text = [] then some [] else none) = stepsFrom more text := by
    rw [List.length_eq_zero_iff.mp empty]
    rfl
  rw [steps_eq,stepsFrom_descends.unrolled_succ right (Nat.le_refl _)]
  exact stepsFrom_descends.unrolled_eq _ _ deep (Nat.lt_succ_self _)

end Path

namespace Statement

/-- Reads statements, given how the statements after the first one are read. -/
def itemsFrom (more : List Line → List Item) : List Line → List Item
  | [] => []
  | line :: following =>
    if isFiller line then more following
    else match read line following with
      | .error fault => [⟨line, .error fault⟩]
      | .ok (statement, rest) => ⟨line, .ok statement⟩ :: more rest

private theorem itemsUpTo_eq (count : Nat) : itemsUpTo count = unrolled itemsFrom (fun _ => []) count := by
  induction count with
  | zero => rfl
  | succ count ih =>
    funext lines
    rw [unrolled,← ih]
    cases lines <;> rfl

private theorem itemsFrom_descends : Descends List.length itemsFrom := by
  intro one other lines same
  cases lines with
  | nil => rfl
  | cons line following =>
    simp only [itemsFrom]
    rw [same following (Nat.lt_succ_self _)]
    split
    · rfl
    · cases found : read line following with
      | error fault => rfl
      | ok result =>
        obtain ⟨statement, rest⟩ := result
        have shorter := (smaller_read found).rest.length_le
        dsimp only
        rw [same rest (by rw [List.length_cons]; omega)]

/-- As many statements as there are lines are enough for them. -/
theorem items_settle (bottom : List Line → List Item) {lines : List Line} {depth : Nat}
    (deep : lines.length < depth) : unrolled itemsFrom bottom depth lines = items lines := by
  have right (more : List Line → List Item) (lines : List Line) (empty : lines.length = 0) :
      [] = itemsFrom more lines := by
    rw [List.length_eq_zero_iff.mp empty]
    rfl
  rw [items,itemsUpTo_eq,itemsFrom_descends.unrolled_succ right (Nat.le_refl _)]
  exact itemsFrom_descends.unrolled_eq _ _ deep (Nat.lt_succ_self _)

end Statement

end Inyandiko
