import Inyandiko.Proofs.Expression.Scan

/-! The search for operators in spelled expressions. A spelled expression shows no operator of a
tier looser than it has to hold together, and the right-most one of its own tier is at its top. -/
namespace Inyandiko

open Text

namespace Operator

/-- The first character of an operator. -/
def first : Operator → Char
  | or => '|'
  | and => '&'
  | eq => '='
  | ne => '!'
  | ge | gt => '>'
  | le | lt => '<'
  | add => '+'
  | sub => '-'
  | mul => '*'
  | div => '/'
  | rem => '%'

/-- The tier of the operators that begin with a character. -/
def tierOfFirst (c : Char) : Nat :=
  if c = '|' then 0
  else if c = '&' then 1
  else if c = '=' || c = '!' then 2
  else if c = '>' || c = '<' then 3
  else if c = '+' || c = '-' then 4
  else 5

private theorem tier_eq (operator : Operator) : operator.tier = tierOfFirst operator.first := by
  cases operator <;> rfl

theorem spelling_eq (operator : Operator) : ∃ rest, operator.spelling = operator.first :: rest := by
  cases operator <;> exact ⟨_, rfl⟩

theorem first_mem (operator : Operator) : operator.first ∈ starts := by
  cases operator <;> decide

theorem first_of_startsWith {operator : Operator} {c : Char} {rest : Chars}
    (found : startsWith (c :: rest) operator.spelling = true) : c = operator.first := by
  obtain ⟨more, spelled⟩ := operator.spelling_eq
  rw [spelled] at found
  by_cases same : operator.first = c
  · exact same.symm
  · simp [startsWith,dropLead?,same] at found

theorem atSpot?_eq_none {operators : List Operator} {spot : Spot}
    (absent : ∀ operator ∈ operators, startsWith (spot.char :: spot.rest) operator.spelling = true →
      (operator.spelling = ['+'] ∨ operator.spelling = ['-']) ∧ isSignAfter spot.before = true) :
    atSpot? spelling operators spot = none := by
  rw [atSpot?,List.find?_eq_none]
  intro operator member found
  simp only [Bool.and_eq_true,Bool.not_eq_true',Bool.and_eq_false_iff,Bool.or_eq_false_iff] at found
  obtain ⟨sign, before⟩ := absent operator member found.1
  rcases found.2 with neither | notSign
  · simp only [decide_eq_false_iff_not] at neither
    rcases sign with plus | minus
    · exact neither.1 plus
    · exact neither.2 minus
  · rw [before] at notSign
    cases notSign

private theorem atSpot?_quiet (operators : List Operator) {spot : Spot} (quiet : isQuiet spot.char = true) :
    atSpot? spelling operators spot = none := by
  apply atSpot?_eq_none
  intro operator _ found
  have start := first_of_startsWith found
  simp only [isQuiet,Bool.and_eq_true,Bool.not_eq_true',start] at quiet
  have member := List.contains_iff_mem.mpr operator.first_mem
  rw [quiet.2] at member
  cases member

/-- The characters that a longer operator may go on with. -/
def seconds : List Char := ['|', '&', '=']

private theorem spelling_of_startsWith {operator : Operator} {c : Char} {rest : Chars}
    (stops : rest.head?.any seconds.contains = false)
    (found : startsWith (c :: rest) operator.spelling = true) : operator.spelling = [c] := by
  have start := first_of_startsWith found
  have double {d : Char} (spelled : operator.spelling = [operator.first, d]) (listed : d ∈ seconds) :
      operator.spelling = [c] := by
    rw [spelled,start] at found
    cases rest with
    | nil => simp [startsWith,dropLead?] at found
    | cons e tail =>
      by_cases same : d = e
      · subst same
        have hit : seconds.contains d = true := List.contains_iff_mem.mpr listed
        rw [List.head?_cons,Option.any_some,hit] at stops
        cases stops
      · simp [startsWith,dropLead?,same] at found
  cases operator with
  | or | and | eq | ne | ge | le => exact double rfl (by decide)
  | gt | lt | add | sub | mul | div | rem =>
    rw [start]
    rfl

/-- The characters that only operators of two characters begin with. -/
def firsts : List Char := ['|', '&', '=', '!']

/-- A negation, or the second character of an operator, begins no operator by itself. -/
private theorem atSpot?_stopped (operators : List Operator) {spot : Spot} (listed : spot.char ∈ firsts)
    (stops : spot.rest.head?.any seconds.contains = false) :
    atSpot? spelling operators spot = none := by
  apply atSpot?_eq_none
  intro operator _ found
  have single := spelling_of_startsWith stops found
  have other : ∀ c ∈ firsts, operator.spelling ≠ [c] := by
    cases operator <;> exact forall_of_all (by decide)
  exact absurd single (other spot.char listed)

private theorem atSpot?_sign (operators : List Operator) {spot : Spot} (sign : isSignAfter spot.before = true)
    (plusMinus : spot.char = '+' ∨ spot.char = '-') : atSpot? spelling operators spot = none := by
  apply atSpot?_eq_none
  intro operator _ found
  have start := first_of_startsWith found
  refine ⟨?_, sign⟩
  have single : operator.first = '+' ∨ operator.first = '-' := by rwa [← start]
  cases operator with
  | add => exact .inl rfl
  | sub => exact .inr rfl
  | _ => exact absurd single (by decide)

/-- The operators of a tier. -/
def ofTier (place : Nat) : List Operator := (tiers[place]?).getD []

private theorem tier_of_mem {place : Nat} {operator : Operator} (member : operator ∈ ofTier place) :
    operator.tier = place := by
  have small : place < 6 := by
    by_cases inside : place < 6
    · exact inside
    · have none : tiers[place]? = none := List.getElem?_eq_none (by simpa [tiers] using inside)
      rw [ofTier,none] at member
      cases member
  have all : ∀ place < 6, ∀ operator ∈ ofTier place, operator.tier = place := by decide
  exact all place small operator member

private theorem atSpot?_loose {place : Nat} {operator : Operator} (loose : place < operator.tier) {spot : Spot}
    (here : spot.char = operator.first) : atSpot? spelling (ofTier place) spot = none := by
  apply atSpot?_eq_none
  intro other member found
  have start := first_of_startsWith found
  have same : other.tier = operator.tier := by rw [tier_eq,tier_eq,← start,here]
  have placed := tier_of_mem member
  omega

private theorem atSpot?_own (operator : Operator) {spot : Spot} {rest : Chars}
    (here : spot.char :: spot.rest = operator.spelling ++ rest)
    (stops : rest.head?.any seconds.contains = false) (binary : isSignAfter spot.before = false) :
    atSpot? spelling (ofTier operator.tier) spot = some operator := by
  rw [atSpot?,here,binary]
  cases rest with
  | nil => cases operator <;> rfl
  | cons c tail =>
    have apart : '=' ≠ c := by
      intro equal
      subst equal
      cases stops
    cases operator with
    | gt | lt => simp [ofTier,tiers,tier,spelling,startsWith,dropLead?,apart]
    | _ => simp [ofTier,tiers,tier,spelling,startsWith,dropLead?]

private theorem spelling_cases (operator : Operator) :
    operator.spelling = [operator.first] ∨
      ∃ second ∈ seconds, operator.spelling = [operator.first, second] := by
  cases operator with
  | or | and | eq | ne | ge | le => exact .inr ⟨_, by decide, rfl⟩
  | gt | lt | add | sub | mul | div | rem => exact .inl rfl

section Steps

variable {operators : List Operator} {spot : Spot} {skip : Nat} {last : Option (Nat × Operator)}
  {more : List Spot}

private theorem lastAmong_pass (flat : opens spot.char = false ∧ closes spot.char = false)
    (absent : atSpot? spelling operators spot = none) :
    lastAmong spelling operators 0 skip last (spot :: more) =
      lastAmong spelling operators 0 skip last more := by
  simp [lastAmong,flat.1,flat.2,absent]

private theorem lastAmong_inside (flat : opens spot.char = false ∧ closes spot.char = false)
    (inside : spot.index < skip) :
    lastAmong spelling operators 0 skip last (spot :: more) =
      lastAmong spelling operators 0 skip last more := by
  simp [lastAmong,flat.1,flat.2,inside]

private theorem lastAmong_take (flat : opens spot.char = false ∧ closes spot.char = false)
    (behind : skip ≤ spot.index) {operator : Operator}
    (found : atSpot? spelling operators spot = some operator) :
    lastAmong spelling operators 0 skip last (spot :: more) =
      lastAmong spelling operators 0 (spot.index + operator.spelling.length)
        (some (spot.index, operator)) more := by
  have reached : ¬spot.index < skip := by omega
  simp [lastAmong,flat.1,flat.2,reached,found]

end Steps

theorem flat_of_start {c : Char} (start : c ∈ starts) :
    isUnquote c = true ∧ opens c = false ∧ closes c = false := by
  have all : ∀ c ∈ starts, isUnquote c = true ∧ opens c = false ∧ closes c = false :=
    forall_of_all (by decide)
  exact all c start

private theorem start_of_second {c : Char} (second : c ∈ seconds) : c ∈ starts ∧ c ∈ firsts := by
  have all : ∀ c ∈ seconds, c ∈ starts ∧ c ∈ firsts := forall_of_all (by decide)
  exact all c second

section Texts

variable {scan : Scan} {skip : Nat} {last : Option (Nat × Operator)} {rest : Chars}

private theorem lastAmong_quiet (operators : List Operator) (inCode : scan.span = .code) {text : Chars}
    (quiet : text.all isQuiet = true) :
    lastAmong spelling operators 0 skip last (scan.spots (text ++ rest)) =
      lastAmong spelling operators 0 skip last ((scan.after text).spots rest) := by
  induction text generalizing scan with
  | nil => rfl
  | cons c tail ih =>
    simp only [List.all_cons,Bool.and_eq_true] at quiet
    have parts := quiet.1
    simp only [isQuiet,Bool.and_eq_true,Bool.not_eq_true'] at parts
    rw [List.cons_append,Scan.spots_unquote inCode parts.1.1.1,Scan.after_cons]
    rw [lastAmong_pass ⟨parts.1.1.2, parts.1.2⟩ (atSpot?_quiet operators quiet.1)]
    exact ih (Scan.span_next_unquote inCode parts.1.1.1) quiet.2

private theorem quiet_spaces (count : Nat) : (spaces count).all isQuiet = true := by
  rw [List.all_eq_true]
  intro c member
  rw [(List.mem_replicate.mp member).2]
  decide

private theorem lastAmong_loose {place : Nat} {operator : Operator} (loose : place < operator.tier)
    (inCode : scan.span = .code) (stops : rest.head?.any seconds.contains = false) :
    lastAmong spelling (ofTier place) 0 skip last (scan.spots (operator.spelling ++ rest)) =
      lastAmong spelling (ofTier place) 0 skip last ((scan.after operator.spelling).spots rest) := by
  obtain ⟨unquote, flat⟩ := flat_of_start operator.first_mem
  rcases operator.spelling_cases with single | ⟨second, listed, double⟩
  · rw [single,List.singleton_append,Scan.spots_unquote inCode unquote]
    rw [lastAmong_pass flat (atSpot?_loose loose rfl)]
    rfl
  · obtain ⟨start, first⟩ := start_of_second listed
    obtain ⟨unquote', flat'⟩ := flat_of_start start
    have inCode' := Scan.span_next_unquote inCode unquote
    rw [double,List.cons_append,List.singleton_append,Scan.spots_unquote inCode unquote]
    rw [lastAmong_pass flat (atSpot?_loose loose rfl),Scan.spots_unquote inCode' unquote']
    rw [lastAmong_pass flat' (atSpot?_stopped _ first stops)]
    rfl

private theorem lastAmong_own (operator : Operator) (done : PastOperand scan) (behind : skip ≤ scan.index)
    (stops : rest.head?.any seconds.contains = false) :
    lastAmong spelling (ofTier operator.tier) 0 skip last (scan.spots (operator.spelling ++ rest)) =
      lastAmong spelling (ofTier operator.tier) 0 (scan.index + operator.spelling.length)
        (some (scan.index, operator)) ((scan.after operator.spelling).spots rest) := by
  obtain ⟨unquote, flat⟩ := flat_of_start operator.first_mem
  rcases operator.spelling_cases with single | ⟨second, listed, double⟩
  · rw [single,List.singleton_append,Scan.spots_unquote done.inCode unquote]
    have found : atSpot? spelling (ofTier operator.tier) ⟨scan.index, operator.first, scan.before, rest⟩ =
        some operator := atSpot?_own operator (by rw [single]; rfl) stops done.operator
    rw [lastAmong_take flat behind found,single]
    rfl
  · obtain ⟨start, _⟩ := start_of_second listed
    obtain ⟨unquote', flat'⟩ := flat_of_start start
    have inCode' := Scan.span_next_unquote done.inCode unquote
    rw [double,List.cons_append,List.singleton_append,Scan.spots_unquote done.inCode unquote]
    have found : atSpot? spelling (ofTier operator.tier)
        ⟨scan.index, operator.first, scan.before, second :: rest⟩ = some operator :=
      atSpot?_own operator (by rw [double]; rfl) stops done.operator
    rw [lastAmong_take flat behind found,Scan.spots_unquote inCode' unquote',double]
    have inside : (scan.next operator.first).index < scan.index + [operator.first, second].length := by
      simp [Scan.next]
    rw [lastAmong_inside flat' inside]
    rfl

end Texts

end Operator

theorem Operator.find?_ofTier (place : Nat) (text : Chars) :
    find? spelling (ofTier place) text = lastAmong spelling (ofTier place) 0 0 none (spots text) := by
  have sorted : (ofTier place).Pairwise fun a b => b.spelling.length ≤ a.spelling.length := by
    by_cases small : place < 6
    · have all : ∀ place < 6, (ofTier place).Pairwise fun a b =>
          b.spelling.length ≤ a.spelling.length := by decide
      exact all place small
    · have none : tiers[place]? = none := List.getElem?_eq_none (by simpa [tiers] using small)
      rw [ofTier,none]
      exact List.Pairwise.nil
  rw [find?,List.mergeSort_of_pairwise]
  simpa using sorted

namespace Operator

theorem ofTier_drop {place : Nat} (small : place < 6) :
    tiers.drop place = ofTier place :: tiers.drop (place + 1) := by
  have all : ∀ place < 6, tiers.drop place = ofTier place :: tiers.drop (place + 1) := by decide
  exact all place small

theorem split?_drop {text : Chars} {place : Nat} (small : place ≤ 6)
    (absent : ∀ looser < place, find? spelling (ofTier looser) text = none) :
    split? text tiers = split? text (tiers.drop place) := by
  induction place with
  | zero => rfl
  | succ place ih =>
    rw [ih (by omega) fun looser bound => absent looser (by omega)]
    rw [ofTier_drop (by omega),split?,absent place (by omega)]

theorem split?_eq_none {text : Chars}
    (absent : ∀ place < 6, find? spelling (ofTier place) text = none) : split? text tiers = none :=
  split?_drop (Nat.le_refl 6) absent

theorem tier_lt (operator : Operator) : operator.tier < 6 := by
  cases operator <;> decide

end Operator

/-- The characters that an operand may begin with. -/
def beginsOperand (c : Char) : Bool := isWordChar c || ['\'', '(', '!', '-', '+'].contains c

private theorem second_of_beginsOperand {c : Char} (begins : beginsOperand c = true) :
    Operator.seconds.contains c = false := by
  cases listed : Operator.seconds.contains c with
  | false => rfl
  | true =>
    have none : ∀ d ∈ Operator.seconds, beginsOperand d = false := forall_of_all (by decide)
    rw [none c (List.contains_iff_mem.mp listed)] at begins
    cases begins

private theorem isBlank_of_beginsOperand {c : Char} (begins : beginsOperand c = true) : isBlank c = false := by
  rw [beginsOperand,Bool.or_eq_true] at begins
  rcases begins with word | listed
  · exact isBlank_of_isWordChar word
  · have solid : ∀ d ∈ ['\'', '(', '!', '-', '+'], isBlank d = false := forall_of_all (by decide)
    exact solid c (List.contains_iff_mem.mp listed)

namespace Leaf

private theorem begins (leaf : Leaf) : ∃ c rest, leaf.text = c :: rest ∧ beginsOperand c = true := by
  rcases leaf.word_or_quoted with ⟨nonempty, words⟩ | ⟨text, rfl⟩
  · cases spelled : leaf.text with
    | nil => exact absurd spelled nonempty
    | cons c rest =>
      rw [spelled,List.all_cons,Bool.and_eq_true] at words
      exact ⟨c, rest, rfl, by rw [beginsOperand,words.1,Bool.true_or]⟩
  · exact ⟨'\'', _, rfl, by decide⟩

private theorem ends (leaf : Leaf) : leaf.text.getLast?.any isBlank = false := by
  rcases leaf.word_or_quoted with ⟨_, words⟩ | ⟨text, rfl⟩
  · cases last : leaf.text.getLast? with
    | none => rfl
    | some c =>
      have word := List.all_eq_true.mp words c (List.mem_of_getLast? last)
      exact isBlank_of_isWordChar word
  · rw [Leaf.text,← List.cons_append,List.getLast?_concat]
    decide

private theorem search (leaf : Leaf) (operators : List Operator) {scan : Scan} (ready : AtOperand scan)
    (skip : Nat) (last : Option (Nat × Operator)) (rest : Chars) :
    Operator.lastAmong Operator.spelling operators 0 skip last (scan.spots (leaf.text ++ rest)) =
      Operator.lastAmong Operator.spelling operators 0 skip last ((scan.after leaf.text).spots rest) := by
  rcases leaf.word_or_quoted with ⟨_, words⟩ | ⟨text, rfl⟩
  · apply Operator.lastAmong_quiet operators ready.inCode
    rw [List.all_eq_true] at words ⊢
    exact fun c member => isWordChar_isQuiet (words c member)
  · rw [(scan_quoted text ready.inCode ready.fresh rest).1]

end Leaf

namespace Expression.Spelled

variable {least : Nat} {expression : Expression} {text : Chars}

theorem begins (spelled : Spelled least expression text) :
    ∃ c rest, text = c :: rest ∧ beginsOperand c = true := by
  induction spelled with
  | leaf _ leaf => exact leaf.begins
  | unary operator gap fits inner ih => exact ⟨_, _, rfl, by cases operator <;> decide⟩
  | binary operator before after fits one two left right =>
    obtain ⟨c, rest, spelled, begins⟩ := left
    exact ⟨c, _, by rw [spelled,List.cons_append], begins⟩
  | parens before after needed inner ih => exact ⟨_, _, rfl, by decide⟩

theorem nonempty (spelled : Spelled least expression text) : text ≠ [] := by
  obtain ⟨c, rest, rfl, _⟩ := spelled.begins
  exact nofun

private theorem stops (spelled : Spelled least expression text) (gap : Nat) (rest : Chars) :
    (spaces gap ++ (text ++ rest)).head?.any Operator.seconds.contains = false := by
  cases gap with
  | zero =>
    obtain ⟨c, more, rfl, begins⟩ := spelled.begins
    exact second_of_beginsOperand begins
  | succ gap => rfl

private theorem search_unary (operator : Unary) {operators : List Operator} {scan : Scan}
    (ready : AtOperand scan) {skip : Nat} {last : Option (Nat × Operator)} {rest : Chars}
    (stops : rest.head?.any Operator.seconds.contains = false) :
    Operator.lastAmong Operator.spelling operators 0 skip last (scan.spots (operator.char :: rest)) =
      Operator.lastAmong Operator.spelling operators 0 skip last
        ((scan.next operator.char).spots rest) := by
  have start : operator.char ∈ Operator.starts := by cases operator <;> decide
  obtain ⟨unquote, flat⟩ := Operator.flat_of_start start
  rw [Scan.spots_unquote ready.inCode unquote]
  apply Operator.lastAmong_pass flat
  cases operator with
  | not =>
    have listed : Unary.not.char ∈ Operator.firsts := by decide
    exact Operator.atSpot?_stopped _ listed stops
  | minus => exact Operator.atSpot?_sign _ ready.sign (.inr rfl)
  | plus => exact Operator.atSpot?_sign _ ready.sign (.inl rfl)

private theorem search_parens (spelled : Spelled least expression text) (before after : Nat)
    {operators : List Operator} {scan : Scan} (ready : AtOperand scan) {skip : Nat}
    {last : Option (Nat × Operator)} (rest : Chars) :
    Operator.lastAmong Operator.spelling operators 0 skip last
        (scan.spots ('(' :: (spaces before ++ (text ++ (spaces after ++ [')']))) ++ rest)) =
      Operator.lastAmong Operator.spelling operators 0 skip last
        ((scan.after ('(' :: (spaces before ++ (text ++ (spaces after ++ [')']))))).spots rest) := by
  have opened := atOperand_next ready.inCode (c := '(') (by decide)
  have ready' := opened.spaces before
  have done := spelled.past ready'
  have done' := done.spaces after
  simp only [Scan.after_append,Scan.after_cons,Scan.after_nil,List.cons_append,List.append_assoc,
    List.nil_append]
  rw [Scan.spots_unquote ready.inCode (by decide)]
  have deeper : Operator.lastAmong Operator.spelling operators 0 skip last
        (⟨scan.index, '(', scan.before, spaces before ++ (text ++ (spaces after ++ ')' :: rest))⟩ ::
          (scan.next '(').spots (spaces before ++ (text ++ (spaces after ++ ')' :: rest)))) =
      Operator.lastAmong Operator.spelling operators (((0 : Nat) : Int) + 1) skip last
        ((scan.next '(').spots (spaces before ++ (text ++ (spaces after ++ ')' :: rest)))) := by
    simp [Operator.lastAmong,opens]
  rw [deeper,(steady_spaces before).lastAmong (.of_fresh opened.inCode opened.fresh _)]
  rw [spelled.steady.lastAmong (.of_fresh ready'.inCode ready'.fresh _)]
  rw [(steady_spaces after).lastAmong (.of_fresh done.inCode done.fresh _)]
  rw [Scan.spots_unquote done'.inCode (by decide)]
  simp [Operator.lastAmong,opens,closes]

/-- A search goes through a spelled expression, and it finds nothing of a looser tier there. -/
private theorem search (spelled : Spelled least expression text) {place : Nat} (within : place ≤ least)
    {scan : Scan} (ready : AtOperand scan) {skip : Nat} (behind : skip ≤ scan.index)
    (last : Option (Nat × Operator)) (rest : Chars) :
    ∃ skip' last', skip' ≤ (scan.after text).index ∧
      Operator.lastAmong Operator.spelling (Operator.ofTier place) 0 skip last (scan.spots (text ++ rest)) =
        Operator.lastAmong Operator.spelling (Operator.ofTier place) 0 skip' last'
          ((scan.after text).spots rest) ∧
      (place < least → last' = last) := by
  have further {skip : Nat} {scan : Scan} (behind : skip ≤ scan.index) (text : Chars) :
      skip ≤ (scan.after text).index := by
    rw [Scan.index_after]
    omega
  induction spelled generalizing scan skip last rest with
  | leaf _ leaf => exact ⟨skip, last, further behind _, leaf.search _ ready _ _ _, fun _ => rfl⟩
  | unary operator gap fits inner ih =>
    have sign := atOperand_next ready.inCode operator.char_mem
    have ready' := sign.spaces gap
    have behind' : skip ≤ ((scan.next operator.char).after (spaces gap)).index :=
      further (further behind [operator.char]) _
    obtain ⟨skip', last', bound, found, loose⟩ := ih (Nat.le_trans within fits) ready' behind' last rest
    refine ⟨skip', last', ?_, ?_, fun tight => loose (Nat.lt_of_lt_of_le tight fits)⟩
    · rw [Scan.after_cons,Scan.after_append]
      exact bound
    · rw [Scan.after_cons,Scan.after_append,List.cons_append,List.append_assoc]
      rw [search_unary operator ready (inner.stops gap rest)]
      rw [Operator.lastAmong_quiet _ sign.inCode (Operator.quiet_spaces gap)]
      exact found
  | @binary _ _ _ leftText _ operator before after fits one two left right =>
    obtain ⟨skip', last', bound, found, loose⟩ := left (Nat.le_trans within fits) ready behind last
      (spaces before ++ (operator.spelling ++ (spaces after ++ (_ ++ rest))))
    have done := one.past ready
    have done' := done.spaces before
    have ready' := (operator.after_spelling done'.inCode).spaces after
    have bound' := further bound (spaces before)
    simp only [List.append_assoc,Scan.after_append]
    rw [found,Operator.lastAmong_quiet _ done.inCode (Operator.quiet_spaces before)]
    by_cases loosest : place < operator.tier
    · have behind' := further (further bound' operator.spelling) (spaces after)
      obtain ⟨skip'', last'', bound'', found', loose'⟩ := right (by omega) ready' behind' last' rest
      refine ⟨skip'', last'', bound'', ?_, fun _ => ?_⟩
      · rw [Operator.lastAmong_loose loosest done'.inCode (two.stops after rest)]
        rw [Operator.lastAmong_quiet _ (operator.after_spelling done'.inCode).inCode
          (Operator.quiet_spaces after)]
        exact found'
      · rw [loose' (by omega),loose loosest]
    · have own : place = operator.tier := by omega
      subst own
      rw [Operator.lastAmong_own operator done' bound' (two.stops after rest)]
      rw [Operator.lastAmong_quiet _ (operator.after_spelling done'.inCode).inCode
        (Operator.quiet_spaces after)]
      generalize (scan.after leftText).after (spaces before) = middle at *
      have behind' := further (Nat.le_of_eq (middle.index_after operator.spelling).symm) (spaces after)
      obtain ⟨skip'', last'', bound'', found', _⟩ := right (Nat.le_succ _) ready' behind'
        (some (middle.index, operator)) rest
      exact ⟨skip'', last'', bound'', found', fun tighter => absurd tighter (by omega)⟩
  | parens before after needed inner ih =>
    exact ⟨skip, last, further behind _, inner.search_parens before after ready rest, fun _ => rfl⟩

/-- No operator of a tier looser than the expression has to hold together is found. -/
theorem find?_none (spelled : Spelled least expression text) {place : Nat} (loose : place < least) :
    Operator.find? Operator.spelling (Operator.ofTier place) text = none := by
  obtain ⟨skip, last, _, found, unchanged⟩ :=
    spelled.search (Nat.le_of_lt loose) atOperand_start (Nat.le_refl 0) none []
  rw [List.append_nil] at found
  rw [Operator.find?_ofTier,spots,found]
  exact unchanged loose

private theorem find?_own {left right : Expression} {leftText rightText : Chars} (operator : Operator)
    (before after : Nat) (one : Spelled operator.tier left leftText)
    (two : Spelled (operator.tier + 1) right rightText) :
    Operator.find? Operator.spelling (Operator.ofTier operator.tier)
        (leftText ++ (spaces before ++ (operator.spelling ++ (spaces after ++ rightText)))) =
      some ((leftText ++ spaces before).length, operator) := by
  obtain ⟨skip, last, bound, found, _⟩ := one.search (Nat.le_refl _) atOperand_start (Nat.le_refl 0) none
    (spaces before ++ (operator.spelling ++ (spaces after ++ (rightText ++ []))))
  have done := one.past atOperand_start
  have done' := done.spaces before
  have place : ((({} : Scan).after leftText).after (spaces before)).index =
      (leftText ++ spaces before).length := by
    rw [← Scan.after_append,Scan.index_after,Nat.zero_add]
  have behind : skip ≤ ((({} : Scan).after leftText).after (spaces before)).index := by
    rw [Scan.index_after]
    omega
  rw [← List.append_nil rightText,Operator.find?_ofTier,spots,found]
  rw [Operator.lastAmong_quiet _ done.inCode (Operator.quiet_spaces before)]
  rw [Operator.lastAmong_own operator done' behind (two.stops after [])]
  rw [Operator.lastAmong_quiet _ (operator.after_spelling done'.inCode).inCode
    (Operator.quiet_spaces after)]
  rw [← place]
  generalize (({} : Scan).after leftText).after (spaces before) = middle at *
  have ready := (operator.after_spelling done'.inCode).spaces after
  have behind' : middle.index + operator.spelling.length ≤
      ((middle.after operator.spelling).after (spaces after)).index := by
    rw [Scan.index_after,Scan.index_after]
    omega
  obtain ⟨_, _, _, found', unchanged⟩ := two.search (Nat.le_succ _) ready behind'
    (some (middle.index, operator)) []
  rw [found']
  exact unchanged (Nat.lt_succ_self _)

theorem trimmed (spelled : Spelled least expression text) : Trimmed text where
  first := by
    obtain ⟨c, rest, rfl, begins⟩ := spelled.begins
    exact isBlank_of_beginsOperand begins
  last := by
    induction spelled with
    | leaf _ leaf => exact leaf.ends
    | unary operator gap fits inner ih =>
      rw [← List.cons_append]
      exact last_append inner.nonempty ih _
    | binary operator before after fits one two left right =>
      rw [← List.append_assoc,← List.append_assoc,← List.append_assoc]
      exact last_append two.nonempty right _
    | parens before after needed inner ih =>
      rw [← List.cons_append,← List.append_assoc,← List.append_assoc,List.getLast?_concat]
      decide

theorem split?_binary {left right : Expression} {leftText rightText : Chars} (operator : Operator)
    (before after : Nat) (one : Spelled operator.tier left leftText)
    (two : Spelled (operator.tier + 1) right rightText) :
    Operator.split? (leftText ++ (spaces before ++ (operator.spelling ++ (spaces after ++ rightText))))
        Operator.tiers =
      some (leftText, operator, rightText) := by
  have whole := Spelled.binary operator before after (Nat.le_refl _) one two
  rw [Operator.split?_drop (Nat.le_of_lt operator.tier_lt) fun looser loose => whole.find?_none loose]
  rw [Operator.ofTier_drop operator.tier_lt,Operator.split?,find?_own operator before after one two]
  dsimp only
  rw [← List.append_assoc,List.take_left,← List.append_assoc,← List.length_append,List.drop_left]
  have first : trim ([] ++ leftText ++ spaces before) = leftText :=
    one.trimmed.trim_pad rfl (all_isBlank_spaces before)
  have second : trim (spaces after ++ rightText ++ []) = rightText :=
    two.trimmed.trim_pad (all_isBlank_spaces after) rfl
  rw [List.nil_append] at first
  rw [List.append_nil] at second
  rw [first,second]

end Expression.Spelled

end Inyandiko
