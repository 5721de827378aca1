import Inyandiko.Proofs.Expression
import Inyandiko.Proofs.Nesting

/-! The characters of expressions. Those of names and digits are quiet: no quote, no bracket, no
blank and no beginning of an operator. -/
namespace Inyandiko

open Text

/-- The characters that operators begin with. -/
def Operator.starts : List Char := ['|', '&', '=', '!', '>', '<', '+', '-', '*', '/', '%']

/-- Characters that mean nothing to a search for operators. -/
def isQuiet (c : Char) : Bool := isUnquote c && !opens c && !closes c && !Operator.starts.contains c

/-- The characters of names and digits. -/
def isWordChar (c : Char) : Bool := isNamePart c || isDecimal c

/-- The characters that are neither quiet nor solid, and the ones that mean something elsewhere. -/
private def special : List Char :=
  ['\'', '"', '\\', '(', ')', '[', ']', '{', '}', '|', '&', '=', '!', '>', '<', '+', '-', '*', '/', '%',
    '.', ',', '\n']

private theorem special_not_word : ∀ c ∈ special, isWordChar c = false := forall_of_all (by decide)

theorem isWordChar_ne {c : Char} (word : isWordChar c = true) {other : Char}
    (member : other ∈ special) : c ≠ other := by
  intro equal
  rw [equal,special_not_word other member] at word
  cases word

theorem isWordChar_isQuiet {c : Char} (word : isWordChar c = true) : isQuiet c = true := by
  have differs : ∀ other ∈ special, c ≠ other := fun other member => isWordChar_ne word member
  simp only [special,List.mem_cons,List.not_mem_nil,or_false,forall_eq_or_imp,forall_eq] at differs
  simp [isQuiet,isUnquote,opens,closes,Operator.starts,differs]

private theorem digits_apart_blanks : ∀ nought ∈ digitZeros, ∀ range ∈ blankRanges,
    nought + 10 ≤ range.1 ∨ range.2 < nought := by decide

private theorem isBlank_of_isDecimal {c : Char} (decimal : isDecimal c = true) : isBlank c = false := by
  simp only [isDecimal,decimalValue?,Option.isSome_map] at decimal
  obtain ⟨nought, found⟩ := Option.isSome_iff_exists.mp decimal
  have member := List.mem_of_find?_eq_some found
  have within := List.find?_some found
  simp only [Bool.and_eq_true,decide_eq_true_eq] at within
  simp only [isBlank,List.any_eq_false]
  intro range listed
  have apart := digits_apart_blanks nought member range listed
  simp only [Bool.and_eq_true,decide_eq_true_eq]
  omega

private theorem names_apart_blanks : ∀ range ∈ blankRanges, range.2 < 48 ∨ 122 < range.1 := by decide

private theorem isNameStart_range {c : Char} (start : isNameStart c = true) :
    65 ≤ c.toNat ∧ c.toNat ≤ 122 := by
  have bounds : ∀ {low high : Char}, low ≤ c → c ≤ high → low.toNat ≤ c.toNat ∧ c.toNat ≤ high.toNat :=
    fun below above => ⟨below, above⟩
  simp only [isNameStart,Bool.or_eq_true,Bool.and_eq_true,decide_eq_true_eq] at start
  rcases start with (⟨low, high⟩ | ⟨low, high⟩) | rfl
  · have := bounds low high
    exact ⟨Nat.le_trans (by decide) this.1, Nat.le_trans this.2 (by decide)⟩
  · have := bounds low high
    exact ⟨Nat.le_trans (by decide) this.1, Nat.le_trans this.2 (by decide)⟩
  · decide

private theorem isNamePart_range {c : Char} (part : isNamePart c = true) :
    48 ≤ c.toNat ∧ c.toNat ≤ 122 := by
  simp only [isNamePart,Bool.or_eq_true,Bool.and_eq_true,decide_eq_true_eq] at part
  rcases part with start | ⟨low, high⟩
  · have range := isNameStart_range start
    omega
  · have below : 48 ≤ c.toNat := low
    have above : c.toNat ≤ 57 := high
    omega

private theorem digits_apart_names : ∀ nought ∈ digitZeros, nought + 10 ≤ 65 ∨ 122 < nought := by decide

/-- No name begins with a digit. -/
theorem isNameStart_of_isDecimal {c : Char} (decimal : isDecimal c = true) : isNameStart c = false := by
  cases start : isNameStart c with
  | false => rfl
  | true =>
    obtain ⟨low, high⟩ := isNameStart_range start
    simp only [isDecimal,decimalValue?,Option.isSome_map] at decimal
    obtain ⟨nought, found⟩ := Option.isSome_iff_exists.mp decimal
    have apart := digits_apart_names nought (List.mem_of_find?_eq_some found)
    have within := List.find?_some found
    simp only [Bool.and_eq_true,decide_eq_true_eq] at within
    omega

private theorem isBlank_of_isNamePart {c : Char} (part : isNamePart c = true) : isBlank c = false := by
  obtain ⟨low, high⟩ := isNamePart_range part
  simp only [isBlank,List.any_eq_false]
  intro range listed
  have apart := names_apart_blanks range listed
  simp only [Bool.and_eq_true,decide_eq_true_eq]
  omega

theorem isBlank_of_isWordChar {c : Char} (word : isWordChar c = true) : isBlank c = false := by
  simp only [isWordChar,Bool.or_eq_true] at word
  rcases word with part | decimal
  · exact isBlank_of_isNamePart part
  · exact isBlank_of_isDecimal decimal

end Inyandiko
