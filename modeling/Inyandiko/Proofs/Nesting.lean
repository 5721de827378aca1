import Inyandiko.Proofs.Scan
import Inyandiko.Proofs.Trim

/-! Nested brackets. A text with nested brackets comes back to the depth it started at and is never
below it on the way, whichever kinds of brackets are counted. -/
namespace Inyandiko.Text

/-- The closing bracket of an opening one. -/
def closerOf (c : Char) : Char := if c = '(' then ')' else if c = '[' then ']' else '}'

/-- The closing brackets still due after some characters; `none` when one closes what is not open. -/
def dueAfter : (due : List Char) → Chars → Option (List Char)
  | due, [] => some due
  | due, c :: rest =>
    if opens c then dueAfter (closerOf c :: due) rest
    else if closes c then
      match due with
      | [] => none
      | closer :: due => if closer = c then dueAfter due rest else none
    else dueAfter due rest

/-- A piece of text that can stand anywhere outside quotes: its own quotes are closed, and its
brackets outside them are nested. -/
structure Steady (text : Chars) : Prop where
  closed : (({} : Scan).after text).span = .code
  nested : dueAfter [] (code text) = some []

/-- The depth after some characters, when brackets of some kinds are counted by their closers;
`none` when it gets below zero. -/
def depthAfter (kind : Char → Bool) : (depth : Nat) → Chars → Option Nat
  | depth, [] => some depth
  | depth, c :: rest =>
    if opens c && kind (closerOf c) then depthAfter kind (depth + 1) rest
    else if closes c && kind c then
      match depth with
      | 0 => none
      | depth + 1 => depthAfter kind depth rest
    else depthAfter kind depth rest

theorem dueAfter_append (due : List Char) (first second : Chars) :
    dueAfter due (first ++ second) = (dueAfter due first).bind (dueAfter · second) := by
  induction first generalizing due with
  | nil => rfl
  | cons c rest ih =>
    simp only [List.cons_append,dueAfter]
    split
    · exact ih _
    · split
      · cases due with
        | nil => rfl
        | cons closer due =>
          dsimp only
          split
          · exact ih _
          · rfl
      · exact ih _

theorem dueAfter_under (due below : List Char) {left : List Char} {text : Chars}
    (nested : dueAfter due text = some left) : dueAfter (due ++ below) text = some (left ++ below) := by
  induction text generalizing due with
  | nil =>
    cases nested
    rfl
  | cons c rest ih =>
    simp only [dueAfter] at nested ⊢
    split at nested
    · rename_i opening
      rw [if_pos opening]
      exact ih (closerOf c :: due) nested
    · rename_i opening
      rw [if_neg opening]
      split at nested
      · rename_i closing
        rw [if_pos closing]
        cases due with
        | nil => cases nested
        | cons closer due =>
          dsimp only [List.cons_append] at nested ⊢
          split at nested
          · rename_i same
            rw [if_pos same]
            exact ih due nested
          · cases nested
      · rename_i closing
        rw [if_neg closing]
        exact ih due nested

/-- Whichever kinds of brackets are counted, the depth is the number of their closers due. -/
private theorem depthAfter_of_due (kind : Char → Bool) {due left : List Char} {text : Chars}
    (nested : dueAfter due text = some left) :
    depthAfter kind (due.countP kind) text = some (left.countP kind) := by
  induction text generalizing due with
  | nil =>
    cases nested
    rfl
  | cons c rest ih =>
    simp only [dueAfter] at nested
    simp only [depthAfter]
    split at nested
    · rename_i opening
      have counted := ih nested
      rw [List.countP_cons] at counted
      cases hit : kind (closerOf c) with
      | true => simpa [opening,hit] using counted
      | false =>
        have shut : closes c = false := by
          simp only [opens,Bool.or_eq_true,decide_eq_true_eq] at opening
          rcases opening with (rfl | rfl) | rfl <;> rfl
        simpa [shut,hit] using counted
    · rename_i opening
      split at nested
      · rename_i closing
        cases due with
        | nil => cases nested
        | cons closer due =>
          dsimp only at nested
          split at nested
          · rename_i same
            subst same
            have counted := ih nested
            rw [List.countP_cons]
            cases hit : kind closer with
            | true => simpa [opening,closing] using counted
            | false => simpa [opening] using counted
          · cases nested
      · rename_i closing
        simpa [opening,closing] using ih nested

theorem depthAfter_append (kind : Char → Bool) (depth : Nat) (first second : Chars) :
    depthAfter kind depth (first ++ second) =
      (depthAfter kind depth first).bind fun left => depthAfter kind left second := by
  induction first generalizing depth with
  | nil => rfl
  | cons c rest ih =>
    simp only [List.cons_append,depthAfter]
    split
    · exact ih _
    · split
      · cases depth with
        | zero => rfl
        | succ depth => exact ih depth
      · exact ih depth

private theorem depthAfter_add (kind : Char → Bool) {depth left : Nat} {text : Chars} (more : Nat)
    (counted : depthAfter kind depth text = some left) :
    depthAfter kind (depth + more) text = some (left + more) := by
  induction text generalizing depth with
  | nil =>
    cases counted
    rfl
  | cons c rest ih =>
    simp only [depthAfter] at counted ⊢
    split at counted
    · rename_i opening
      rw [if_pos opening,Nat.add_right_comm]
      exact ih counted
    · rename_i opening
      rw [if_neg opening]
      split at counted
      · rename_i closing
        rw [if_pos closing]
        cases depth with
        | zero => cases counted
        | succ depth =>
          rw [Nat.add_right_comm]
          exact ih counted
      · rename_i closing
        rw [if_neg closing]
        exact ih counted

theorem Steady.append {first second : Chars} (one : Steady first) (two : Steady second)
    (enters : (({} : Scan).after first).Enters second) : Steady (first ++ second) where
  closed := by rw [Scan.after_append,enters.span_after,two.closed]
  nested := by
    rw [code_append enters,dueAfter_append,one.nested]
    exact two.nested

theorem Steady.of_unquote {text : Chars} (unquote : text.all isUnquote = true)
    (nested : dueAfter [] text = some []) : Steady text where
  closed := Scan.span_after_unquote rfl unquote
  nested := by rwa [code,spots,Scan.chars_unquote rfl unquote]

theorem dueAfter_plain {text : Chars} (plain : text.all (fun c => !opens c && !closes c) = true)
    (due : List Char) : dueAfter due text = some due := by
  induction text with
  | nil => rfl
  | cons c rest ih =>
    simp only [List.all_cons,Bool.and_eq_true,Bool.not_eq_true'] at plain
    simp only [dueAfter,plain.1.1,plain.1.2,Bool.false_eq_true,if_false]
    exact ih (by simpa using plain.2)

theorem steady_spaces (count : Nat) : Steady (spaces count) := by
  have plain : ∀ c ∈ spaces count, c = ' ' := fun c member => (List.mem_replicate.mp member).2
  apply Steady.of_unquote
  · exact List.all_eq_true.mpr fun c member => by rw [plain c member]; rfl
  · exact dueAfter_plain (List.all_eq_true.mpr fun c member => by rw [plain c member]; rfl) []

theorem Steady.depth {text : Chars} (steady : Steady text) (kind : Char → Bool) (depth : Nat) :
    depthAfter kind depth (code text) = some depth := by
  have counted := depthAfter_add kind depth (depthAfter_of_due kind steady.nested)
  simpa using counted

section Consumers

variable {spots more : List Spot} {depth left : Nat}

theorem depthAfter_cons (kind : Char → Bool) (depth : Nat) (c : Char) (rest : Chars) :
    depthAfter kind depth (c :: rest) =
      if opens c && kind (closerOf c) then depthAfter kind (depth + 1) rest
      else if closes c && kind c then
        match depth with
        | 0 => none
        | depth + 1 => depthAfter kind depth rest
      else depthAfter kind depth rest := by
  cases depth <;> rfl

theorem opens_paren (c : Char) : (opens c && decide (closerOf c = ')')) = decide (c = '(') := by
  by_cases paren : c = '('
  · subst paren; rfl
  · by_cases bracket : c = '['
    · subst bracket; rfl
    · simp [closerOf,paren,bracket]

theorem closes_paren (c : Char) : (closes c && decide (c = ')')) = decide (c = ')') := by
  by_cases paren : c = ')'
  · subst paren; rfl
  · simp [paren]

private theorem opens_brace (c : Char) : (opens c && decide (closerOf c = '}')) = decide (c = '{') := by
  by_cases paren : c = '('
  · subst paren; rfl
  · by_cases bracket : c = '['
    · subst bracket; rfl
    · by_cases brace : c = '{'
      · subst brace; rfl
      · simp [opens,paren,bracket,brace]

private theorem closes_brace (c : Char) : (closes c && decide (c = '}')) = decide (c = '}') := by
  by_cases brace : c = '}'
  · subst brace; rfl
  · simp [brace]

/-- A count of brackets of some kinds goes through spots that come back to where they started. -/
private theorem count_pass {β : Type} (kind : Char → Bool) (count : Nat → List Spot → β)
    (up : ∀ depth spot more, (opens spot.char && kind (closerOf spot.char)) = true →
      count depth (spot :: more) = count (depth + 1) more)
    (down : ∀ depth spot more, (opens spot.char && kind (closerOf spot.char)) = false →
      (closes spot.char && kind spot.char) = true → count (depth + 1) (spot :: more) = count depth more)
    (same : ∀ depth spot more, (opens spot.char && kind (closerOf spot.char)) = false →
      (closes spot.char && kind spot.char) = false → count depth (spot :: more) = count depth more)
    (counted : depthAfter kind depth (spots.map Spot.char) = some left) :
    count depth (spots ++ more) = count left more := by
  induction spots generalizing depth with
  | nil =>
    cases counted
    rfl
  | cons spot spots ih =>
    rw [List.map_cons,depthAfter_cons] at counted
    rw [List.cons_append]
    split at counted
    · rename_i opening
      rw [up depth spot _ opening]
      exact ih counted
    · rename_i opening
      have shut := Bool.of_not_eq_true opening
      split at counted
      · rename_i closing
        cases depth with
        | zero => cases counted
        | succ depth =>
          rw [down depth spot _ shut closing]
          exact ih counted
      · rename_i closing
        rw [same depth spot _ shut (Bool.of_not_eq_true closing)]
        exact ih counted

private theorem staysOpen_pass (last : Nat)
    (counted : depthAfter (· = ')') depth (spots.map Spot.char) = some left) :
    staysOpen last (depth + 1) (spots ++ more) = staysOpen last (left + 1) more := by
  refine count_pass (· = ')') (fun depth spots => staysOpen last (depth + 1) spots) ?_ ?_ ?_ counted
  · intro depth spot more opening
    rw [opens_paren,decide_eq_true_eq] at opening
    have inside : ¬((depth : Int) + 1 + 1 = 0) := by omega
    simp [staysOpen,opening,inside]
  · intro depth spot more opening closing
    rw [opens_paren,decide_eq_false_iff_not] at opening
    rw [closes_paren,decide_eq_true_eq] at closing
    have inside : ¬((depth : Int) + 1 = 0) := by omega
    simp [staysOpen,closing,inside]
  · intro depth spot more opening closing
    rw [opens_paren,decide_eq_false_iff_not] at opening
    rw [closes_paren,decide_eq_false_iff_not] at closing
    have inside : ¬((depth : Int) + 1 = 0) := by omega
    simp [staysOpen,opening,closing,inside]

theorem effect_pass (counted : depthAfter (· = '}') depth (spots.map Spot.char) = some left) :
    Block.effect (depth + 1) (spots ++ more) = Block.effect (left + 1) more := by
  refine count_pass (· = '}') (fun depth spots => Block.effect (depth + 1) spots) ?_ ?_ ?_ counted
  · intro depth spot more opening
    rw [opens_brace,decide_eq_true_eq] at opening
    simp [Block.effect,opening]
  · intro depth spot more opening closing
    rw [opens_brace,decide_eq_false_iff_not] at opening
    rw [closes_brace,decide_eq_true_eq] at closing
    have inside : ¬((depth : Int) + 1 = 0) := by omega
    simp [Block.effect,closing,inside]
  · intro depth spot more opening closing
    rw [opens_brace,decide_eq_false_iff_not] at opening
    rw [closes_brace,decide_eq_false_iff_not] at closing
    simp [Block.effect,opening,closing]

theorem braceDelta_eq {text : Chars} (counted : depthAfter (· = '}') 0 (code text) = some left) :
    braceDelta text = left := by
  rw [braceDelta,← List.append_nil (spots text)]
  refine count_pass (· = '}') (fun depth spots => spots.foldl (fun (total : Int) (spot : Spot) =>
    if spot.char = '{' then total + 1 else if spot.char = '}' then total - 1 else total) depth)
    ?_ ?_ ?_ counted
  · intro depth spot more opening
    rw [opens_brace,decide_eq_true_eq] at opening
    simp [opening]
  · intro depth spot more opening closing
    rw [closes_brace,decide_eq_true_eq] at closing
    simp [closing]
  · intro depth spot more opening closing
    rw [opens_brace,decide_eq_false_iff_not] at opening
    rw [closes_brace,decide_eq_false_iff_not] at closing
    simp [opening,closing]

private theorem lastAmong_pass {α : Type} (spell : α → Chars) (operators : List α) (skip : Nat)
    (last : Option (Nat × α)) (counted : depthAfter (fun _ => true) depth (spots.map Spot.char) = some left) :
    Operator.lastAmong spell operators (depth + 1) skip last (spots ++ more) =
      Operator.lastAmong spell operators (left + 1) skip last more := by
  refine count_pass (fun _ => true)
    (fun depth spots => Operator.lastAmong spell operators (depth + 1) skip last spots) ?_ ?_ ?_ counted
  · intro depth spot more opening
    rw [Bool.and_true] at opening
    simp [Operator.lastAmong,opening]
  · intro depth spot more opening closing
    rw [Bool.and_true] at opening closing
    simp [Operator.lastAmong,opening,closing]
  · intro depth spot more opening closing
    rw [Bool.and_true] at opening closing
    have inside : ¬((depth : Int) + 1 = 0) := by omega
    simp [Operator.lastAmong,opening,closing,inside]

private theorem topLevelCommas_append
    (counted : depthAfter (fun _ => true) depth (spots.map Spot.char) = some left) :
    topLevelCommas depth (spots ++ more) = topLevelCommas depth spots ++ topLevelCommas left more := by
  induction spots generalizing depth with
  | nil =>
    cases counted
    rfl
  | cons spot spots ih =>
    rw [List.map_cons,depthAfter_cons,Bool.and_true,Bool.and_true] at counted
    simp only [List.cons_append,topLevelCommas]
    split at counted
    · rename_i opening
      simp only [opening,if_true]
      exact ih counted
    · rename_i opening
      simp only [Bool.of_not_eq_true opening,Bool.false_eq_true,if_false]
      split at counted
      · rename_i closing
        simp only [closing,if_true]
        cases depth with
        | zero => cases counted
        | succ depth =>
          have next : ((depth + 1 : Nat) : Int) - 1 = depth := by omega
          rw [next]
          exact ih counted
      · rename_i closing
        simp only [Bool.of_not_eq_true closing,Bool.false_eq_true,if_false]
        split
        · rw [ih counted,List.cons_append]
        · exact ih counted

end Consumers

namespace Steady

variable {text : Chars} {scan : Scan}

private theorem counted (steady : Steady text) (enters : scan.Enters text) (kind : Char → Bool)
    (depth : Nat) (rest : Chars) :
    depthAfter kind depth (((scan.spots text).map (Spot.extend rest)).map Spot.char) = some depth := by
  have same : Spot.char ∘ Spot.extend rest = Spot.char := rfl
  rw [List.map_map,same,enters.chars]
  exact steady.depth kind depth

theorem staysOpen (steady : Steady text) (enters : scan.Enters text) (last depth : Nat) (rest : Chars) :
    staysOpen last (depth + 1) (scan.spots (text ++ rest)) =
      Inyandiko.staysOpen last (depth + 1) ((scan.after text).spots rest) := by
  rw [Scan.spots_append]
  exact staysOpen_pass last (steady.counted enters _ depth rest)

theorem effect (steady : Steady text) (enters : scan.Enters text) (depth : Nat) (rest : Chars) :
    Block.effect (depth + 1) (scan.spots (text ++ rest)) =
      Block.effect (depth + 1) ((scan.after text).spots rest) := by
  rw [Scan.spots_append]
  exact effect_pass (steady.counted enters _ depth rest)

theorem lastAmong (steady : Steady text) (enters : scan.Enters text) {α : Type} (spell : α → Chars)
    (operators : List α) (depth skip : Nat) (last : Option (Nat × α)) (rest : Chars) :
    Operator.lastAmong spell operators (depth + 1) skip last (scan.spots (text ++ rest)) =
      Operator.lastAmong spell operators (depth + 1) skip last ((scan.after text).spots rest) := by
  rw [Scan.spots_append]
  exact lastAmong_pass spell operators skip last (steady.counted enters _ depth rest)

theorem topLevelCommas (steady : Steady text) (enters : scan.Enters text) (depth : Nat) (rest : Chars) :
    topLevelCommas depth (scan.spots (text ++ rest)) =
      Inyandiko.topLevelCommas depth ((scan.spots text).map (Spot.extend rest)) ++
        Inyandiko.topLevelCommas depth ((scan.after text).spots rest) := by
  rw [Scan.spots_append]
  exact topLevelCommas_append (steady.counted enters _ depth rest)

end Steady

end Inyandiko.Text
