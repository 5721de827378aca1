import Mathlib.Data.List.Induction
import Inyandiko.Proofs.Expression.Search

/-! The search for operators in any text, whether it is an expression or not. What a search has found after a part of
the text is the last operator there that stands outside quotes and brackets, is no sign, and is not overlapped by one
found before it; so a text is split at the right-most one. -/
namespace Inyandiko

open Text

namespace Text

private theorem prefix_iff_startsWith {lead text : Chars} : lead <+: text ↔ startsWith text lead = true := by
  rw [startsWith]
  fun_induction dropLead? lead text with
  | case1 text => exact iff_of_true List.nil_prefix rfl
  | case2 c lead => simp
  | case3 c lead text ih => rw [List.prefix_cons_inj,ih]
  | case4 c lead d text other => simp [List.cons_prefix_cons,other]

private theorem Scan.before_after (text : Chars) : (({} : Scan).after text).before = (trimEnd text).getLast? := by
  induction text using List.reverseRecOn with
  | nil => rfl
  | append_singleton text c ih =>
    have step : ((({} : Scan).after text).next c).before =
        if isBlank c then (({} : Scan).after text).before else some c := rfl
    rw [after_append,after_cons,after_nil,step,ih]
    cases blank : isBlank c with
    | true => rw [trimEnd_blanks (show [c].all isBlank = true by simp [blank]),if_pos rfl]
    | false =>
      have solid : (text ++ [c]).getLast?.any isBlank = false := by rw [List.getLast?_concat]; exact blank
      rw [trimEnd_of_last solid,List.getLast?_concat,if_neg Bool.false_ne_true]

private theorem mem_codeChars_iff {before rest : Chars} {c d : Char} :
    (before.length, d) ∈ codeChars (before ++ c :: rest) ↔ (({} : Scan).after before).sees c = true ∧ d = c := by
  rw [codeChars,List.mem_map]
  constructor
  · rintro ⟨spot, member, same⟩
    obtain ⟨front, whole, index, sees⟩ := Scan.split_of_mem member
    obtain ⟨place, rfl⟩ := Prod.mk.inj same
    have sized : before.length = front.length := by rw [← place,index,Nat.zero_add]
    obtain ⟨rfl, later⟩ := List.append_inj whole sized
    obtain ⟨rfl, -⟩ := List.cons.inj later
    exact ⟨sees, rfl⟩
  · rintro ⟨sees, rfl⟩
    refine ⟨⟨before.length, d, (({} : Scan).after before).before, rest⟩, ?_, rfl⟩
    rw [spots,Scan.spots_append,Scan.spots,if_pos sees,Scan.index_after,Nat.zero_add]
    exact List.mem_append_right _ List.mem_cons_self

private theorem closes_of_opens {c : Char} (opening : opens c = true) : closes c = false := by
  simp only [opens,Bool.or_eq_true,decide_eq_true_eq] at opening
  rcases opening with (rfl | rfl) | rfl <;> rfl

private theorem length_of_mem_codeChars {text : Chars} {index : Nat} {c : Char} (member : (index, c) ∈ codeChars text) :
    index < text.length := by
  obtain ⟨spot, among, same⟩ := List.mem_map.mp member
  obtain ⟨rfl, -⟩ := Prod.mk.inj same
  have bounds := (Scan.index_bounds among).2
  rwa [Nat.zero_add] at bounds

end Text

namespace Operator

variable {α : Type} {spell : α → Chars} {operators : List α} {text before rest : Chars} {operator : α}
  {bound skip : Nat} {last : Option (Nat × α)}

/-- The number of brackets that are open at an index; quoted ones do not count, and more may be closed than opened. -/
def depthAt (text : Chars) (index : Nat) : Int :=
  (code (text.take index)).countP opens - (code (text.take index)).countP closes

/-- An operator between two operands stands at an index, outside quotes and brackets. -/
structure Divides (spell : α → Chars) (text : Chars) (index : Nat) (operator : α) : Prop where
  spelled : spell operator <+: text.drop index
  unquoted : ∃ c, (index, c) ∈ codeChars text
  level : depthAt text index = 0
  binary : spell operator = ['+'] ∨ spell operator = ['-'] → isSignAt text index = false

/-- What a search has found before an index, and where that ends: an operator that no longer one stands in the place
of, with none after it up to that index. -/
inductive Latest (spell : α → Chars) (operators : List α) (text : Chars) (bound : Nat) :
    Nat → Option (Nat × α) → Prop
  | nothing (absent : ∀ place < bound, ∀ other ∈ operators, ¬Divides spell text place other) :
    Latest spell operators text bound 0 none
  | operator {index : Nat} {operator : α} (member : operator ∈ operators) (divides : Divides spell text index operator)
    (longest : ∀ other ∈ operators, spell other <+: text.drop index →
      (spell other).length ≤ (spell operator).length)
    (absent : ∀ place < bound, index + (spell operator).length ≤ place →
      ∀ other ∈ operators, ¬Divides spell text place other) :
    Latest spell operators text bound (index + (spell operator).length) (some (index, operator))

/-- Operators have a character at least and do not begin with brackets. -/
def Spellable (spell : α → Chars) (operators : List α) : Prop :=
  ∀ operator ∈ operators, ∃ c more, spell operator = c :: more ∧ opens c = false ∧ closes c = false

private theorem Latest.pass (found : Latest spell operators text bound skip last)
    (absent : skip ≤ bound → ∀ other ∈ operators, ¬Divides spell text bound other) :
    Latest spell operators text (bound + 1) skip last := by
  cases found with
  | nothing earlier =>
    refine .nothing fun place below other member => ?_
    rcases Nat.lt_succ_iff_lt_or_eq.mp below with below | rfl
    · exact earlier place below other member
    · exact absent (Nat.zero_le _) other member
  | operator member divides longest earlier =>
    refine .operator member divides longest fun place below behind other member => ?_
    rcases Nat.lt_succ_iff_lt_or_eq.mp below with below | rfl
    · exact earlier place below behind other member
    · exact absent behind other member

private theorem Latest.take (spellable : Spellable spell operators) (member : operator ∈ operators)
    (divides : Divides spell text bound operator)
    (longest : ∀ other ∈ operators, spell other <+: text.drop bound → (spell other).length ≤ (spell operator).length) :
    Latest spell operators text (bound + 1) (bound + (spell operator).length) (some (bound, operator)) := by
  refine .operator member divides longest fun place below behind => ?_
  obtain ⟨c, more, spelled, -⟩ := spellable operator member
  rw [spelled,List.length_cons] at behind
  omega

section Steps

variable {c : Char} {depth : Int}

private theorem isSignAt_length (before rest : Chars) :
    isSignAt (before ++ rest) before.length = isSignAfter (({} : Scan).after before).before := by
  have forward : ¬((before.length : Int) < 0) := by omega
  rw [isSignAt,Scan.before_after]
  simp only [if_neg forward,Int.toNat_natCast,List.take_left]

private theorem code_concat (before : Chars) (c : Char) :
    code (before ++ [c]) = code before ++ if (({} : Scan).after before).sees c then [c] else [] := by
  rw [code,spots,Scan.spots_append,List.map_append,List.map_map,Scan.spots]
  split <;> rfl

private theorem depthAt_succ (before : Chars) (c : Char) (rest : Chars) :
    depthAt (before ++ c :: rest) (before.length + 1) = depthAt (before ++ c :: rest) before.length +
      if (({} : Scan).after before).sees c then (if opens c then 1 else 0) - (if closes c then 1 else 0) else 0 := by
  have longer : (before ++ c :: rest).take (before.length + 1) = before ++ [c] := by
    rw [List.take_length_add_append]
    rfl
  rw [depthAt,depthAt,List.take_left,longer,code_concat]
  split
  · simp only [List.countP_append,List.countP_cons,List.countP_nil]
    split <;> split <;> omega
  · simp

/-- An operator divides a text at a spot at depth zero if it is spelled there and is no sign. -/
private theorem divides_iff (sees : (({} : Scan).after before).sees c = true)
    (level : depthAt (before ++ c :: rest) before.length = 0) :
    Divides spell (before ++ c :: rest) before.length operator ↔
      (startsWith (c :: rest) (spell operator) && !((spell operator = ['+'] || spell operator = ['-']) &&
        isSignAfter (({} : Scan).after before).before)) = true := by
  simp only [Bool.and_eq_true,Bool.not_eq_true',Bool.and_eq_false_imp,Bool.or_eq_true,decide_eq_true_eq]
  constructor
  · rintro ⟨spelled, -, -, binary⟩
    rw [List.drop_left,prefix_iff_startsWith] at spelled
    rw [isSignAt_length] at binary
    exact ⟨spelled, binary⟩
  · rintro ⟨spelled, binary⟩
    refine ⟨?_, ⟨c, mem_codeChars_iff.mpr ⟨sees, rfl⟩⟩, level, ?_⟩
    · rwa [List.drop_left,prefix_iff_startsWith]
    · rwa [isSignAt_length]

private theorem Spellable.not_divides (spellable : Spellable spell operators)
    (bracket : opens c = true ∨ closes c = true) :
    ∀ other ∈ operators, ¬Divides spell (before ++ c :: rest) before.length other := by
  intro other member divides
  obtain ⟨d, more, spelled, opening, closing⟩ := spellable other member
  have here := divides.spelled
  rw [List.drop_left,spelled] at here
  obtain ⟨rfl, -⟩ := List.cons_prefix_cons.mp here
  rw [opening,closing] at bracket
  simp at bracket

/-- Among operators that are sorted by length, the first that stands at a spot is the longest one there. -/
private theorem Spellable.longest (spellable : Spellable spell operators)
    (sorted : operators.Pairwise fun a b => (spell b).length ≤ (spell a).length) {spot : Spot}
    (found : atSpot? spell operators spot = some operator) {other : α} (member : other ∈ operators)
    (stands : startsWith (spot.char :: spot.rest) (spell other) = true) :
    (spell other).length ≤ (spell operator).length := by
  obtain ⟨-, front, back, rfl, skipped⟩ := List.find?_eq_some_iff_append.mp found
  rcases List.mem_append.mp member with earlier | later
  · -- an earlier one that stands there has been passed over as a sign, and signs are short
    have sign := skipped other earlier
    simp only [stands,Bool.true_and,Bool.not_not,Bool.and_eq_true,Bool.or_eq_true,decide_eq_true_eq] at sign
    obtain ⟨c, more, spelled, -⟩ := spellable operator (List.mem_append_right _ List.mem_cons_self)
    rw [spelled,List.length_cons]
    rcases sign.1 with single | single <;> simp [single]
  · rcases List.mem_cons.mp later with rfl | later
    · exact Nat.le_refl _
    · exact (List.pairwise_cons.mp (List.pairwise_append.mp sorted).2.1).1 other later

end Steps

section Run

variable (spellable : Spellable spell operators)
  (sorted : operators.Pairwise fun a b => (spell b).length ≤ (spell a).length)

include spellable sorted

/-- One more spot: the search goes on with the depth behind it and with what it has found up to there. -/
private theorem lastAmong_step {c : Char} (sees : (({} : Scan).after before).sees c = true)
    (found : Latest spell operators (before ++ c :: rest) before.length skip last) (later : List Spot) :
    ∃ skip' last', Latest spell operators (before ++ c :: rest) (before.length + 1) skip' last' ∧
      lastAmong spell operators (depthAt (before ++ c :: rest) before.length) skip last
        (⟨before.length, c, (({} : Scan).after before).before, rest⟩ :: later) =
      lastAmong spell operators (depthAt (before ++ c :: rest) (before.length + 1)) skip' last' later := by
  have deep := depthAt_succ before c rest
  rw [if_pos sees] at deep
  rw [lastAmong]
  split
  · rename_i opening
    rw [if_pos opening,closes_of_opens opening] at deep
    rw [deep]
    exact ⟨skip, last, found.pass fun _ => spellable.not_divides (.inl opening), rfl⟩
  · rename_i opening
    rw [if_neg opening] at deep
    split
    · rename_i closing
      rw [if_pos closing] at deep
      rw [deep]
      exact ⟨skip, last, found.pass fun _ => spellable.not_divides (.inr closing), rfl⟩
    · rename_i closing
      rw [if_neg closing,Int.sub_zero,Int.add_zero] at deep
      rw [deep]
      split
      · rename_i passed
        refine ⟨skip, last, found.pass fun behind other _ divides => ?_, rfl⟩
        have level := divides.level
        simp only [Bool.or_eq_true,decide_eq_true_eq] at passed
        omega
      · rename_i reached
        simp only [Bool.or_eq_true,decide_eq_true_eq,not_or,not_not] at reached
        split
        · rename_i operator hit
          refine ⟨_, _, .take spellable (List.mem_of_find?_eq_some hit) ?_ fun other member stands => ?_, rfl⟩
          · exact (divides_iff sees reached.1).mpr (@List.find?_some _ _ operator _ hit)
          · rw [List.drop_left,prefix_iff_startsWith] at stands
            exact spellable.longest sorted hit member stands
        · rename_i miss
          refine ⟨skip, last, found.pass fun _ other member divides => ?_, rfl⟩
          exact List.find?_eq_none.mp miss other member ((divides_iff sees reached.1).mp divides)

/-- What a search has found at the end of a text, from what it has found after a part of it. -/
private theorem lastAmong_latest (found : Latest spell operators (before ++ rest) before.length skip last) :
    ∃ skip', Latest spell operators (before ++ rest) (before ++ rest).length skip'
      (lastAmong spell operators (depthAt (before ++ rest) before.length) skip last
        ((({} : Scan).after before).spots rest)) := by
  induction rest generalizing before skip last with
  | nil =>
    rw [List.append_nil] at found ⊢
    exact ⟨skip, found⟩
  | cons c rest ih =>
    have onward {skip : Nat} {last : Option (Nat × α)}
        (found : Latest spell operators (before ++ c :: rest) (before.length + 1) skip last) :
        ∃ skip', Latest spell operators (before ++ c :: rest) (before ++ c :: rest).length skip'
          (lastAmong spell operators (depthAt (before ++ c :: rest) (before.length + 1)) skip last
            (((({} : Scan).after before).next c).spots rest)) := by
      have whole : before ++ c :: rest = (before ++ [c]) ++ rest := by simp
      have longer : before.length + 1 = (before ++ [c]).length := by simp
      rw [whole,longer] at found ⊢
      have later := ih found
      rwa [Scan.after_append] at later
    have index : (({} : Scan).after before).index = before.length := by rw [Scan.index_after,Nat.zero_add]
    rw [Scan.spots]
    split
    · rename_i sees
      obtain ⟨skip', last', found', step⟩ := lastAmong_step spellable sorted sees found
        (((({} : Scan).after before).next c).spots rest)
      rw [index,step]
      exact onward found'
    · rename_i quoted
      have level := depthAt_succ before c rest
      rw [if_neg quoted,Int.add_zero] at level
      rw [← level]
      refine onward (found.pass fun _ other _ divides => ?_)
      obtain ⟨d, member⟩ := divides.unquoted
      exact quoted (mem_codeChars_iff.mp member).1

end Run

private theorem Latest.congr {others : List α} (same : ∀ operator, operator ∈ operators ↔ operator ∈ others)
    (found : Latest spell operators text bound skip last) : Latest spell others text bound skip last := by
  cases found with
  | nothing absent => exact .nothing fun place below other member => absent place below other ((same other).mpr member)
  | operator member divides longest absent =>
    exact .operator ((same _).mp member) divides (fun other member => longest other ((same other).mpr member))
      fun place below behind other member => absent place below behind other ((same other).mpr member)

private theorem find?_latest (spellable : Spellable spell operators) (text : Chars) :
    ∃ skip, Latest spell operators text text.length skip (find? spell operators text) := by
  let ordered := operators.mergeSort fun a b => (spell b).length ≤ (spell a).length
  have same (operator : α) : operator ∈ ordered ↔ operator ∈ operators := List.mem_mergeSort
  have sorted : ordered.Pairwise fun a b => (spell b).length ≤ (spell a).length := by
    have pairs := @List.pairwise_mergeSort α (fun a b => (spell b).length ≤ (spell a).length)
      (fun a b c first second => by simp only [decide_eq_true_eq] at *; omega)
      (fun a b => by simp only [Bool.or_eq_true,decide_eq_true_eq]; omega) operators
    simpa using pairs
  have spellable' : Spellable spell ordered := fun operator member => spellable operator ((same operator).mp member)
  have start : Latest spell ordered ([] ++ text) ([] : Chars).length 0 none := .nothing (by simp)
  obtain ⟨skip, found⟩ := lastAmong_latest spellable' sorted start
  exact ⟨skip, found.congr same⟩

private theorem spellable_spelling (operators : List Operator) : Spellable spelling operators := by
  intro operator _
  obtain ⟨more, spelled⟩ := operator.spelling_eq
  exact ⟨operator.first, more, spelled, (flat_of_start operator.first_mem).2⟩

/-- The place that a search ends with: an operator divides the text there, no longer one stands there, and none divides
the text behind it. -/
structure RightMost (spell : α → Chars) (operators : List α) (text : Chars) (index : Nat) (operator : α) : Prop where
  member : operator ∈ operators
  divides : Divides spell text index operator
  longest : ∀ other ∈ operators, spell other <+: text.drop index → (spell other).length ≤ (spell operator).length
  last : ∀ place, index + (spell operator).length ≤ place → ∀ other ∈ operators, ¬Divides spell text place other

private theorem Divides.index_lt (divides : Divides spell text bound operator) : bound < text.length := by
  obtain ⟨c, member⟩ := divides.unquoted
  exact length_of_mem_codeChars member

private theorem Divides.split (divides : Divides spell text bound operator) :
    text.take bound ++ spell operator ++ text.drop (bound + (spell operator).length) = text := by
  obtain ⟨right, whole⟩ := divides.spelled
  have later : text.drop (bound + (spell operator).length) = right := by
    rw [← List.drop_drop,← whole,List.drop_left]
  rw [later,List.append_assoc,whole,List.take_append_drop]

private theorem rightMost_of_find? (spellable : Spellable spell operators)
    (found : find? spell operators text = some (bound, operator)) : RightMost spell operators text bound operator := by
  obtain ⟨skip, latest⟩ := find?_latest spellable text
  rw [found] at latest
  cases latest with
  | operator member divides longest absent =>
    refine ⟨member, divides, longest, fun place behind other member divides => ?_⟩
    exact absent place divides.index_lt behind other member divides

private theorem find?_eq_none_iff (spellable : Spellable spell operators) :
    find? spell operators text = none ↔ ∀ place, ∀ other ∈ operators, ¬Divides spell text place other := by
  obtain ⟨skip, latest⟩ := find?_latest spellable text
  generalize find? spell operators text = found at latest
  cases latest with
  | nothing absent =>
    exact iff_of_true rfl fun place other member divides => absent place divides.index_lt other member divides
  | operator member divides => exact iff_of_false (Option.some_ne_none _) fun absent => absent _ _ member divides

private theorem find?_of_split? {left right : Token} {operator : Operator} {levels : List (List Operator)}
    (split : split? text levels = some (left, operator, right)) :
    ∃ looser tier tighter index, levels = looser ++ tier :: tighter ∧
      (∀ other ∈ looser, find? spelling other text = none) ∧ find? spelling tier text = some (index, operator) ∧
      left = trim (text.take index) ∧ right = trim (text.drop (index + operator.spelling.length)) := by
  induction levels with
  | nil => cases split
  | cons tier levels ih =>
    rw [split?] at split
    split at split
    · rename_i index found located
      cases split
      exact ⟨[], tier, levels, index, rfl, by simp, located, rfl, rfl⟩
    · rename_i absent
      obtain ⟨looser, own, tighter, index, rfl, none, located, sides⟩ := ih split
      refine ⟨tier :: looser, own, tighter, index, rfl, fun other member => ?_, located, sides⟩
      rcases List.mem_cons.mp member with rfl | member
      · exact absent
      · exact none other member

/-- The operator of a tier that is found in a text is the right-most one that divides the text, and there is none only
if no operator of the tier divides it. A text is so split in the loosest tier that has one: what is left and right of
the operator makes up the text with it, and is shorter than the text. -/
theorem operators_are_found_right_most (text : Chars) :
    (∀ tier : List Operator,
      (∀ index operator, find? spelling tier text = some (index, operator) →
        RightMost spelling tier text index operator) ∧
      (find? spelling tier text = none ↔ ∀ place, ∀ other ∈ tier, ¬Divides spelling text place other)) ∧
    ∀ left operator right, split? text tiers = some (left, operator, right) →
      ∃ looser tier tighter front back, tiers = looser ++ tier :: tighter ∧
        (∀ other ∈ looser, find? spelling other text = none) ∧
        find? spelling tier text = some (front.length, operator) ∧
        front ++ operator.spelling ++ back = text ∧ left = trim front ∧ right = trim back ∧
        front.length < text.length ∧ back.length < text.length := by
  refine ⟨fun tier => ⟨fun index operator found => rightMost_of_find? (spellable_spelling tier) found,
    find?_eq_none_iff (spellable_spelling tier)⟩, fun left operator right split => ?_⟩
  obtain ⟨looser, tier, tighter, index, levels, absent, found, one, two⟩ := find?_of_split? split
  have divides := (rightMost_of_find? (spellable_spelling tier) found).divides
  have inside := divides.index_lt
  have front : (text.take index).length = index := by rw [List.length_take]; omega
  refine ⟨looser, tier, tighter, text.take index, text.drop (index + operator.spelling.length), levels, absent,
    by rwa [front], divides.split, one, two, by omega, ?_⟩
  obtain ⟨more, spelled⟩ := operator.spelling_eq
  rw [List.length_drop,spelled,List.length_cons]
  omega

/-- Neither the quoted minus nor the sign nor the minus in parentheses splits the text. -/
theorem operators_are_found_right_most_signs :
    let text := "1 - '-' - -(2 - 3)".toList
    find? spelling [add, sub] text = some (8, sub) ∧ RightMost spelling [add, sub] text 8 sub ∧
      find? spelling [or] text = none ∧ (∀ place, ¬Divides spelling text place or) ∧
      ∃ front back, split? text tiers = some (trim front, sub, trim back) ∧ front ++ ['-'] ++ back = text := by
  intro text
  have found : find? spelling [add, sub] text = some (8, sub) := (find?_ofTier 4 text).trans (by decide)
  have none : ∀ looser < 4, lastAmong spelling (ofTier looser) 0 0 none (spots text) = .none := by decide
  have absent : ∀ looser < 4, find? spelling (ofTier looser) text = .none :=
    fun looser small => (find?_ofTier looser text).trans (none looser small)
  have split : split? text tiers = some ("1 - '-'".toList, sub, "-(2 - 3)".toList) := by
    rw [split?_drop (by decide) absent,ofTier_drop (by decide),split?,show ofTier 4 = [add, sub] from rfl,found]
    decide
  obtain ⟨spec, sides⟩ := operators_are_found_right_most text
  obtain ⟨_, _, _, front, back, _, _, _, whole, left, right, _⟩ := sides _ _ _ split
  refine ⟨found, (spec _).1 8 sub found, absent 0 (by decide), ?_, front, back, ?_, whole⟩
  · exact fun place => (spec _).2.mp (absent 0 (by decide)) place or List.mem_cons_self
  · rw [split,← left,← right]

end Operator

end Inyandiko
