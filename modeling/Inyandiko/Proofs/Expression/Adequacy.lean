import Inyandiko.Proofs.Expression.Simple

/-! Evaluation of spelled expressions. The value of a text that spells an expression is the value of
the expression from the bottom up, or an error of the same class; only nesting that is too deep
can get in the way. -/
namespace Inyandiko

open Text

namespace Expression.Spelled

variable {least : Nat} {expression : Expression} {text : Chars}

private theorem staysOpen_parens (spelled : Spelled least expression text) (before after last : Nat) (rest : Chars) :
    ∃ spot, spot.index = 1 + before + text.length + after ∧ spot.char = ')' ∧
      staysOpen last 0 (spots ('(' :: (spaces before ++ (text ++ (spaces after ++ [')']))) ++ rest)) =
        staysOpen last 1 (spot ::
          (({} : Scan).after ('(' :: (spaces before ++ (text ++ (spaces after ++ [')']))))).spots rest) := by
  have opened := atOperand_next atOperand_start.inCode (c := '(') (by decide)
  have ready := opened.spaces before
  have done := spelled.past ready
  have done' := done.spaces after
  simp only [Scan.after_append,Scan.after_cons,Scan.after_nil,List.cons_append,List.append_assoc,
    List.nil_append]
  rw [spots,Scan.spots_unquote rfl (by decide)]
  have inside (spots : List Spot) (spot : Spot) (opening : spot.char = '(') :
      staysOpen last 0 (spot :: spots) = staysOpen last (((0 : Nat) : Int) + 1) spots := by
    simp [staysOpen,opening]
  rw [inside _ _ rfl,(steady_spaces before).staysOpen (.of_fresh opened.inCode opened.fresh _)]
  rw [spelled.steady.staysOpen (.of_fresh ready.inCode ready.fresh _)]
  rw [(steady_spaces after).staysOpen (.of_fresh done.inCode done.fresh _)]
  rw [Scan.spots_unquote done'.inCode (by decide)]
  refine ⟨_, ?_, rfl, rfl⟩
  simp only [Scan.index_after,Scan.next,spaces,List.length_replicate]

/-- The parenthesis that an expression with an operator begins with is closed before its end. -/
private theorem closes_early (spelled : Spelled least expression text) (begins : text.head? = some '(')
    {last : Nat} (inside : text.length ≤ last) (rest : Chars) :
    staysOpen last 0 (spots (text ++ rest)) = false := by
  induction spelled generalizing rest with
  | leaf _ leaf =>
    rcases leaf.word_or_quoted with ⟨_, words⟩ | ⟨text, rfl⟩
    · have word := List.all_eq_true.mp words '(' (List.mem_of_mem_head? begins)
      exact absurd word (by decide)
    · exact absurd (Option.some.inj begins) (by decide)
  | unary operator gap fits inner ih =>
    exact absurd (Option.some.inj begins) (by cases operator <;> decide)
  | binary operator before after fits one two left right =>
    obtain ⟨c, more, rfl, _⟩ := one.begins
    rw [List.append_assoc]
    refine left begins ?_ _
    rw [List.length_append] at inside
    omega
  | parens before after needed inner ih =>
    obtain ⟨spot, index, char, closing⟩ := inner.staysOpen_parens before after last rest
    have early : spot.index < last := by
      simp only [List.length_cons,List.length_append,spaces,List.length_replicate,List.length_nil] at inside
      omega
    rw [closing]
    simp [staysOpen,char,early]

private theorem stripParens_first (trimmed : Trimmed text) (other : text.head? ≠ some '(') :
    stripParens text = text := by
  simp [stripParens,trimmed.trim_eq,other]

private theorem stripParens_binary {left right : Expression} {leftText rightText : Chars} (operator : Operator)
    (before after : Nat) (one : Spelled operator.tier left leftText)
    (two : Spelled (operator.tier + 1) right rightText) :
    stripParens (leftText ++ (spaces before ++ (operator.spelling ++ (spaces after ++ rightText)))) =
      leftText ++ (spaces before ++ (operator.spelling ++ (spaces after ++ rightText))) := by
  have whole := Spelled.binary operator before after (Nat.le_refl _) one two
  generalize token : leftText ++ (spaces before ++ (operator.spelling ++ (spaces after ++ rightText))) = text
  rw [token] at whole
  by_cases begins : text.head? = some '('
  · have first : leftText.head? = some '(' := by
      obtain ⟨c, more, rfl, _⟩ := one.begins
      rw [← token] at begins
      exact begins
    have shorter : leftText.length ≤ text.length - 1 := by
      have nonempty : 0 < rightText.length := List.length_pos_iff.mpr two.nonempty
      rw [← token]
      simp only [List.length_append]
      omega
    have early := one.closes_early first shorter
      (spaces before ++ (operator.spelling ++ (spaces after ++ rightText)))
    rw [token] at early
    simp [stripParens,whole.trimmed.trim_eq,early]
  · exact stripParens_first whole.trimmed begins

private theorem stripParens_parens (spelled : Spelled least expression text) (before after : Nat) :
    stripParens ('(' :: (spaces before ++ (text ++ (spaces after ++ [')'])))) = text := by
  obtain ⟨spot, index, char, closing⟩ :=
    spelled.staysOpen_parens before after (1 + before + text.length + after) []
  have stays : staysOpen (1 + before + text.length + after) 0
      (spots ('(' :: (spaces before ++ (text ++ (spaces after ++ [')']))))) = true := by
    rw [← List.append_nil ('(' :: (spaces before ++ (text ++ (spaces after ++ [')'])))),closing]
    simp [staysOpen,Scan.spots,char,index]
  have shape : '(' :: (spaces before ++ (text ++ (spaces after ++ [')']))) =
      ('(' :: (spaces before ++ text ++ spaces after)) ++ [')'] := by
    simp only [List.append_assoc,List.cons_append]
  have length : (('(' :: (spaces before ++ text ++ spaces after)) ++ [')']).length - 1 =
      1 + before + text.length + after := by
    simp only [List.length_append,List.length_cons,List.length_nil,spaces,List.length_replicate]
    omega
  have trimmed : Trimmed (('(' :: (spaces before ++ text ++ spaces after)) ++ [')']) :=
    ⟨show isBlank '(' = false by decide, by rw [List.getLast?_concat]; decide⟩
  rw [shape] at stays ⊢
  rw [stripParens,trimmed.trim_eq,length,stays,List.getLast?_concat]
  have inner := spelled.trimmed.trim_pad (all_isBlank_spaces before) (all_isBlank_spaces after)
  rw [List.append_assoc] at inner
  simp [inner]

end Expression.Spelled

/-- Two computations with the same result or errors of the same class. -/
def SameClass {α : Type} (one two : Except Halt α) : Prop :=
  match one, two with
  | .ok a, .ok b => a = b
  | .error halt, .error other => halt.class = other.class
  | _, _ => False

namespace SameClass

private theorem refl {α : Type} (one : Except Halt α) : SameClass one one := by
  cases one <;> rfl

private theorem bind {α β : Type} {one two : Except Halt α} {f g : α → Except Halt β}
    (first : SameClass one two) (rest : ∀ a, SameClass (f a) (g a)) :
    SameClass (one >>= f) (two >>= g) := by
  cases one with
  | ok a =>
    cases two with
    | ok b =>
      cases first
      exact rest a
    | error other => exact first.elim
  | error halt =>
    cases two with
    | ok b => exact first.elim
    | error other => exact first

end SameClass

private theorem toNumber_class (value : Value) (token other : Token) :
    SameClass (value.toNumber token) (value.toNumber other) := by
  cases value <;> rfl

private theorem compare_class (left right : Value) (one two other another : Token) :
    SameClass (left.compare right one two) (left.compare right other another) := by
  cases left <;> cases right <;> rfl

private theorem Operator.apply_class (operator : Operator) (heap : Heap) (left right : Value)
    (one two other another : Token) :
    SameClass (operator.apply heap left right one two) (operator.apply heap left right other another) := by
  have numbers (op op' : Number → Number → Except Halt Value) (same : ∀ x y, SameClass (op x y) (op' x y)) :
      SameClass (onNumbers left right one two op) (onNumbers left right other another op') :=
    (toNumber_class left one other).bind fun x => (toNumber_class right two another).bind fun y => same x y
  have divided (op : Number → Number → Except Crash Number) (x y : Number) :
      SameClass (division op x y two) (division op x y another) := by
    rw [division,division]
    split
    · rfl
    · exact .refl _
  have compared (f : Option Ordering → Value) :
      SameClass (do return f (← left.compare right one two)) (do return f (← left.compare right other another)) :=
    (compare_class left right one two other another).bind fun _ => .refl _
  cases operator with
  | or | and | eq | ne => exact .refl _
  | ge | le | gt | lt => exact compared _
  | add =>
    simp only [apply]
    split
    · exact .refl _
    · exact numbers _ _ fun _ _ => .refl _
  | sub | mul => exact numbers _ _ fun _ _ => .refl _
  | div | rem => exact numbers _ _ (divided _)

/-- An evaluation with the expected outcome, unless it was cut short. -/
def Settles {α : Type} (short : Prop) (heap : Heap) (outcome : Except Halt (α × Heap))
    (expected : Except Halt α) : Prop :=
  Outcome heap outcome expected ∨ short ∧ outcome = .error .tooDeep

namespace Settles

variable {α β : Type} {short : Prop} {heap : Heap}

private theorem of_class {one two : Except Halt α} (same : SameClass one two) :
    Settles short heap ((liftM one : HeapM α) heap) two := by
  cases one with
  | ok a =>
    cases two with
    | ok b =>
      cases same
      exact .inl ⟨rfl, rfl⟩
    | error other => exact same.elim
  | error halt =>
    cases two with
    | ok b => exact same.elim
    | error other => exact .inl same

private theorem bind {x : HeapM α} {f : α → HeapM β} {expected : Except Halt α} {g : α → Except Halt β}
    (first : Settles short heap (x heap) expected) (rest : ∀ a, Settles short heap (f a heap) (g a)) :
    Settles short heap ((x >>= f) heap) (expected >>= g) := by
  have run : (x >>= f) heap = (x heap).bind fun (a, after) => f a after := rfl
  rw [run]
  rcases first with outcome | ⟨cut, deep⟩
  · cases ran : x heap with
    | ok pair =>
      obtain ⟨a, after⟩ := pair
      rw [ran] at outcome
      cases expected with
      | ok b =>
        obtain ⟨rfl, rfl⟩ := outcome
        exact rest a
      | error other => exact outcome.elim
    | error halt =>
      rw [ran] at outcome
      cases expected with
      | ok b => exact outcome.elim
      | error other => exact .inl outcome
  · rw [deep]
    exact .inr ⟨cut, rfl⟩

private theorem mono {short' : Prop} {outcome : Except Halt (α × Heap)} {expected : Except Halt α}
    (settles : Settles short heap outcome expected) (weaker : short → short') :
    Settles short' heap outcome expected :=
  settles.imp_right fun ⟨cut, deep⟩ => ⟨weaker cut, deep⟩

end Settles

section Evaluate

variable {lookup : String → Option Value} {depth : Nat} {token text : Chars} {heap : Heap}

theorem HeapM.bind_run {α β : Type} {first : HeapM α} {found : α} {after : Heap} (run : first heap = .ok (found, after))
    (next : α → HeapM β) : (first >>= next) heap = next found after := by
  change (first heap).bind (fun pair => next pair.1 pair.2) = next found after
  rw [run]
  rfl

theorem evaluateWithin_run (trimmed : trim token = text) (nonempty : text ≠ []) {found : Option Value} {after : Heap}
    (simple : simpleValue? lookup text heap = .ok (found, after)) :
    evaluateWithin lookup (depth + 1) token heap =
      match found with
      | some value => .ok (value, after)
      | none =>
        if stripParens text ≠ text then evaluateWithin lookup depth (stripParens text) after
        else evaluateOperators (evaluateWithin lookup depth) text after := by
  rw [evaluateWithin,trimmed]
  simp only [nonempty,if_false]
  rw [HeapM.bind_run simple]
  cases found with
  | some value => rfl
  | none =>
    dsimp only
    split
    · rfl
    · rfl

private theorem evaluateOperators_binary (operand : Token → HeapM Value) {operator : Operator} {left right : Token}
    (split : Operator.split? text Operator.tiers = some (left, operator, right)) (one : left ≠ [])
    (two : right ≠ []) :
    evaluateOperators operand text = (do
      let first ← operand left
      let second ← operand right
      operator.apply (← get) first second left right) := by
  unfold evaluateOperators
  rw [split]
  simp [one,two]

private theorem evaluateOperators_unary (operand : Token → HeapM Value) (operator : Unary) (nonempty : text ≠ []) :
    Operator.split? (operator.char :: text) Operator.tiers = none →
    evaluateOperators operand (operator.char :: text) =
      match operator with
      | .not => do return .bool !(← operand text).truthy
      | .minus => do return .number (← (← operand (trim text)).toNumber (trim text)).neg
      | .plus => do return .number (← (← operand (trim text)).toNumber (trim text)) := by
  intro split
  unfold evaluateOperators
  rw [split]
  cases text with
  | nil => exact absurd rfl nonempty
  | cons c rest => cases operator <;> rfl

private theorem evaluateOperators_unknown (operand : Token → HeapM Value)
    (split : Operator.split? text Operator.tiers = none) (plain : text.head?.any marks.contains = false) :
    evaluateOperators operand text = throw (.ofCause (.unknownValue (String.ofList text))) := by
  unfold evaluateOperators
  rw [split]
  cases text with
  | nil => rfl
  | cons c rest =>
    have other : c ≠ '!' ∧ c ≠ '-' ∧ c ≠ '+' := by
      refine ⟨?_, ?_, ?_⟩ <;> (rintro rfl; cases plain)
    simp [other]

/-- A token that is nothing simple, shows no operator and begins with no mark is not known. -/
theorem evaluateWithin_unknown (trimmed : trim token = text) (nonempty : text ≠ []) {after : Heap}
    (simple : simpleValue? lookup text heap = .ok (none, after)) (split : Operator.split? text Operator.tiers = none)
    (plain : text.head?.any marks.contains = false) :
    evaluateWithin lookup (depth + 1) token heap = .error (.ofCause (.unknownValue (String.ofList text))) := by
  have bare : stripParens text = text := by
    refine Expression.Spelled.stripParens_first (trimmed ▸ trimmed_trim token) fun same => ?_
    rw [same] at plain
    cases plain
  rw [evaluateWithin_run trimmed nonempty simple,bare]
  simp only [ne_eq,not_true_eq_false,if_false]
  rw [evaluateOperators_unknown _ split plain]
  rfl

end Evaluate

section Adequacy

variable {lookup : String → Option Value} {heap : Heap}

theorem Leaf.unmarked (leaf : Leaf) : leaf.text.head?.any marks.contains = false := by
  rcases leaf.word_or_quoted with ⟨_, words⟩ | ⟨text, rfl⟩
  · cases first : leaf.text.head? with
    | none => rfl
    | some c =>
      have word := List.all_eq_true.mp words c (List.mem_of_mem_head? first)
      have others : ∀ d ∈ marks, isWordChar d = false := forall_of_all (by decide)
      rw [Option.any_some,← Bool.not_eq_true,List.contains_iff_mem]
      intro mark
      rw [others c mark] at word
      cases word
  · rfl

private theorem VariableName.evaluateWithin_unbound (name : VariableName) {token : Chars}
    (trimmed : trim token = name.text) (depth : Nat) (unbound : lookup (String.ofList name.text) = none) :
    evaluateWithin lookup (depth + 1) token heap =
      .error (.ofCause (.unknownValue (String.ofList name.text))) := by
  have spelled : Expression.Spelled unaryTier (.leaf (.name name)) name.text := .leaf unaryTier (.name name)
  have simple := simpleValue?_name lookup heap name
  have unsplit : Operator.split? name.text Operator.tiers = none :=
    Operator.split?_eq_none fun place small => spelled.find?_none small
  rw [unbound] at simple
  exact evaluateWithin_unknown trimmed spelled.nonempty simple unsplit (Leaf.name name).unmarked

private theorem Leaf.settles (leaf : Leaf) {token : Chars} (trimmed : trim token = leaf.text) (depth : Nat) :
    Settles (depth = 0) heap (evaluateWithin lookup depth token heap)
      ((Expression.leaf leaf).value lookup heap) := by
  have spelled := Expression.Spelled.leaf unaryTier leaf
  cases depth with
  | zero => exact .inr ⟨rfl, rfl⟩
  | succ depth =>
    have found {value : Value} (simple : simpleValue? lookup leaf.text heap = .ok (some value, heap)) :
        evaluateWithin lookup (depth + 1) token heap = .ok (value, heap) :=
      evaluateWithin_run trimmed spelled.nonempty simple
    left
    cases leaf with
    | integer literal =>
      rw [found (simpleValue?_integer lookup heap literal)]
      exact ⟨rfl, rfl⟩
    | word kind =>
      rw [found (simpleValue?_word lookup heap kind)]
      exact ⟨rfl, rfl⟩
    | quoted text =>
      rw [found (simpleValue?_quoted lookup heap text)]
      exact ⟨rfl, rfl⟩
    | name name =>
      have simple := simpleValue?_name lookup heap name
      cases bound : lookup (String.ofList name.text) with
      | some value =>
        rw [bound] at simple
        rw [found simple]
        simp only [Expression.value,bound]
        exact ⟨rfl, rfl⟩
      | none =>
        rw [name.evaluateWithin_unbound trimmed depth bound]
        simp only [Expression.value,bound]
        rfl

namespace Expression

private theorem height_pos (expression : Expression) : 0 < expression.height := by
  cases expression <;> exact Nat.succ_pos _

private theorem evaluateWithin_parens (names : ∀ name, (lookup name).isSome = true → isName name.toList = true)
    {least : Nat} {expression : Expression} {text token : Chars} (inner : Spelled least expression text)
    (before after depth : Nat)
    (trimmed : trim token = '(' :: (spaces before ++ (text ++ (spaces after ++ [')'])))) :
    evaluateWithin lookup (depth + 1) token heap = evaluateWithin lookup depth text heap := by
  have stripped := inner.stripParens_parens before after
  have longer : text.length < ('(' :: (spaces before ++ (text ++ (spaces after ++ [')'])))).length := by
    simp only [List.length_cons,List.length_append]
    omega
  have mark : '(' ∈ marks := by decide
  have simple := (Compound.of_mark mark (spaces before ++ (text ++ (spaces after ++ [')'])))).simpleValue?
    lookup heap (isNumeral_first (by decide) (by decide) _) names
  rw [evaluateWithin_run trimmed (List.cons_ne_nil _ _) simple,stripped]
  exact if_pos fun same => absurd (congrArg List.length same) (Nat.ne_of_lt longer)

private theorem settles_unary (names : ∀ name, (lookup name).isSome = true → isName name.toList = true)
    (operator : Unary) (gap depth : Nat) {operand : Expression} {text token : Chars} {short : Prop}
    (inner : Spelled unaryTier operand text)
    (trimmed : trim token = operator.char :: (spaces gap ++ text))
    (settled : ∀ token, trim token = text →
      Settles short heap (evaluateWithin lookup depth token heap) (operand.value lookup heap)) :
    Settles short heap (evaluateWithin lookup (depth + 1) token heap)
      ((Expression.unary operator operand).value lookup heap) := by
  have whole := Spelled.unary operator gap (Nat.le_refl _) inner
  rcases inner.numberless_unary operator gap with numberless | ⟨rfl, rfl, literal, rfl, rfl⟩
  · have simple := (Compound.of_mark operator.char_mark _).simpleValue? lookup heap numberless names
    have bare : stripParens (operator.char :: (spaces gap ++ text)) = operator.char :: (spaces gap ++ text) :=
      Spelled.stripParens_first whole.trimmed fun same =>
        absurd (Option.some.inj same) (by cases operator <;> decide)
    have unsplit := Operator.split?_eq_none fun place small => whole.find?_none small
    have nonempty : spaces gap ++ text ≠ [] := List.append_ne_nil_of_right_ne_nil _ inner.nonempty
    have rest := inner.trimmed.trim_spaces gap
    rw [evaluateWithin_run trimmed whole.nonempty simple,bare]
    simp only [ne_eq,not_true_eq_false,if_false]
    rw [evaluateOperators_unary _ operator nonempty unsplit,rest]
    have number (value : Value) (f : Number → Value) :
        Settles short heap ((do return f (← value.toNumber text) : HeapM Value) heap)
          (do return f (← value.toNumber [])) :=
      (Settles.of_class (toNumber_class value text [])).bind fun _ => .inl ⟨rfl, rfl⟩
    cases operator with
    | not => exact (settled _ rest).bind fun _ => .inl ⟨rfl, rfl⟩
    | minus => exact (settled _ inner.trimmed.trim_eq).bind fun value => number value fun n => .number n.neg
    | plus => exact (settled _ inner.trimmed.trim_eq).bind fun value => number value .number
  · -- The minus is read as a part of the number here.
    rw [evaluateWithin_run trimmed whole.nonempty (simpleValue?_minus lookup heap literal)]
    exact .inl ⟨rfl, rfl⟩

private theorem settles_binary (names : ∀ name, (lookup name).isSome = true → isName name.toList = true)
    (operator : Operator) (before after depth : Nat) {left right : Expression}
    {leftText rightText token : Chars} {short : Prop} (one : Spelled operator.tier left leftText)
    (two : Spelled (operator.tier + 1) right rightText)
    (trimmed : trim token =
      leftText ++ (spaces before ++ (operator.spelling ++ (spaces after ++ rightText))))
    (settledLeft : Settles short heap (evaluateWithin lookup depth leftText heap) (left.value lookup heap))
    (settledRight : Settles short heap (evaluateWithin lookup depth rightText heap)
      (right.value lookup heap)) :
    Settles short heap (evaluateWithin lookup (depth + 1) token heap)
      ((Expression.binary operator left right).value lookup heap) := by
  have whole := Spelled.binary operator before after (Nat.le_refl _) one two
  have split := Spelled.split?_binary operator before after one two
  have bare := Spelled.stripParens_binary operator before after one two
  obtain ⟨c, more, behind, member⟩ := operator_follows operator before (spaces after ++ rightText)
  rw [behind] at whole split bare trimmed
  have simple := (one.compound member more).simpleValue? lookup heap (one.numberless member more) names
  rw [evaluateWithin_run trimmed whole.nonempty simple,bare]
  simp only [ne_eq,not_true_eq_false,if_false]
  rw [evaluateOperators_binary _ split one.nonempty two.nonempty]
  refine settledLeft.bind fun first => settledRight.bind fun second => ?_
  exact .of_class (operator.apply_class heap first second leftText rightText [] [])

/-- Evaluation of a spelled expression. An expression that stands by itself takes two levels for
each of its own but one, and parentheses take another. -/
theorem settles (names : ∀ name, (lookup name).isSome = true → isName name.toList = true) {least : Nat}
    {expression : Expression} {text : Chars} (spelled : Spelled least expression text) (depth : Nat)
    (token : Chars) (trimmed : trim token = text) :
    Settles (depth < 2 * expression.height) heap (evaluateWithin lookup depth token heap)
        (expression.value lookup heap) ∧
      (least ≤ expression.tier → Settles (depth + 1 < 2 * expression.height) heap
        (evaluateWithin lookup depth token heap) (expression.value lookup heap)) := by
  have both {expression : Expression} {least depth : Nat} {token : Chars}
      (bare : Settles (depth + 1 < 2 * expression.height) heap
        (evaluateWithin lookup depth token heap) (expression.value lookup heap)) :
      Settles (depth < 2 * expression.height) heap (evaluateWithin lookup depth token heap)
          (expression.value lookup heap) ∧
        (least ≤ expression.tier → Settles (depth + 1 < 2 * expression.height) heap
          (evaluateWithin lookup depth token heap) (expression.value lookup heap)) :=
    ⟨bare.mono (by omega), fun _ => bare⟩
  induction spelled generalizing depth token with
  | leaf _ leaf => exact both ((leaf.settles trimmed depth).mono (by simp only [height]; omega))
  | @unary _ operand _ operator gap fits inner ih =>
    refine both ?_
    cases depth with
    | zero => exact .inr ⟨by have := operand.height_pos; simp only [height]; omega, rfl⟩
    | succ depth =>
      refine settles_unary names operator gap depth inner trimmed fun token same => ?_
      exact (ih depth token same).1.mono (by simp only [height]; omega)
  | @binary _ left right _ _ operator before after fits one two ihLeft ihRight =>
    refine both ?_
    cases depth with
    | zero => exact .inr ⟨by have := left.height_pos; simp only [height]; omega, rfl⟩
    | succ depth =>
      refine settles_binary names operator before after depth one two trimmed ?_ ?_
      · exact (ihLeft depth _ one.trimmed.trim_eq).1.mono (by simp only [height]; omega)
      · exact (ihRight depth _ two.trimmed.trim_eq).1.mono (by simp only [height]; omega)
  | @parens _ expression _ before after needed inner ih =>
    refine ⟨?_, fun fits => absurd fits (Nat.not_le.mpr needed)⟩
    cases depth with
    | zero => exact .inr ⟨by have := expression.height_pos; omega, rfl⟩
    | succ depth =>
      rw [evaluateWithin_parens names inner before after depth trimmed]
      exact ((ih depth _ inner.trimmed.trim_eq).2 (Nat.zero_le _)).mono (by omega)

end Expression

end Adequacy

/-- The text that spells an expression, with blanks around it, has the value of the expression from
the bottom up, or fails with an error of the same class, for every look-up that knows nothing but
names. Only an expression of more than half as many levels as may be nested can fail for its
depth. -/
theorem evaluate_spelled (lookup : String → Option Value)
    (names : ∀ name, (lookup name).isSome = true → isName name.toList = true) (heap : Heap)
    {expression : Expression} {text : Chars} (spelled : expression.Spelled 0 text) (before after : Nat) :
    Outcome heap (evaluate lookup (spaces before ++ text ++ spaces after) heap)
        (expression.value lookup heap) ∨
      nestingLimit < 2 * expression.height ∧
        evaluate lookup (spaces before ++ text ++ spaces after) heap = .error .tooDeep :=
  (Expression.settles names spelled nestingLimit _
    (spelled.trimmed.trim_pad (all_isBlank_spaces before) (all_isBlank_spaces after))).1

namespace Sample

/-- One name with a value. -/
def lookup (name : String) : Option Value := if name = "x" then some (.int 3) else none

/-- An integer of one digit. -/
def digit (c : Char) (decimal : isDecimal c = true) : Leaf :=
  .integer ⟨[c], nofun, by simpa using decimal, Nat.succ_le_succ (Nat.zero_le _)⟩

/-- The name with a value. -/
def x : Leaf := .name ⟨['x'], by decide, by decide⟩

/-- A text with a quote in it. -/
def text : Leaf := .quoted ⟨"it's".toList, by decide⟩

/-- Signs, a text and operators of four tiers. -/
def expression : Expression :=
  .binary .or
    (.binary .sub
      (.binary .mul (.unary .minus (.binary .add (.leaf x) (.leaf (digit '2' (by decide)))))
        (.leaf (digit '3' (by decide))))
      (.unary .minus (.leaf (digit '1' (by decide)))))
    (.unary .not (.leaf text))

private theorem spelled : expression.Spelled 0 "-(x+ 2)*3 - -1 ||!'it\\'s'".toList := by
  have sum := Expression.Spelled.binary .add 0 1 (Nat.zero_le _) (.leaf _ x)
    (.leaf _ (digit '2' (by decide)))
  have product := Expression.Spelled.binary .mul 0 0 (show Operator.sub.tier ≤ _ by decide)
    (.unary .minus 0 (by decide) (.parens 0 0 (by decide) sum)) (.leaf _ (digit '3' (by decide)))
  have difference := Expression.Spelled.binary .sub 1 1 (show Operator.or.tier ≤ _ by decide) product
    (.unary .minus 0 (by decide) (.leaf _ (digit '1' (by decide))))
  exact .binary .or 1 0 (Nat.le_refl _) difference (.unary .not 0 (by decide) (.leaf _ text))

end Sample

theorem evaluate_spelled_sample :
    (∀ name, (Sample.lookup name).isSome = true → isName name.toList = true) ∧
      Sample.expression.Spelled 0 "-(x+ 2)*3 - -1 ||!'it\\'s'".toList ∧
      Outcome {} (evaluate Sample.lookup "  -(x+ 2)*3 - -1 ||!'it\\'s' ".toList {}) (.ok (.bool true)) := by
  have names : ∀ name, (Sample.lookup name).isSome = true → isName name.toList = true := by
    intro name known
    by_cases same : name = "x"
    · rw [same]
      decide
    · simp [Sample.lookup,same] at known
  refine ⟨names, Sample.spelled, ?_⟩
  exact (evaluate_spelled Sample.lookup names {} Sample.spelled 2 1).resolve_right
    fun ⟨deep, _⟩ => absurd deep (by decide)

end Inyandiko
