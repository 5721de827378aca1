import Inyandiko.Proofs.Expression.Adequacy
import Inyandiko.Proofs.Rounding.Operation

/-! Remainders of integers. Both operands are rounded to floating-point numbers first, and nothing is rounded
after that: the remainder of two integers that are floating-point numbers is exact, the remainder of others is
the one of the floating-point numbers nearest to them, and beyond these there is none. -/
namespace Inyandiko

open Text

/-- Whether an integer is among the finite floating-point numbers. -/
def IsDouble (n : ℤ) : Prop := ∃ x : Binary64, x.Normalized ∧ x.toRat = n

/-- An integer among the finite floating-point numbers to which none of them is nearer. -/
structure NearestDouble (n nearest : ℤ) : Prop where
  double : IsDouble nearest
  near : ∀ other, IsDouble other → |nearest - n| ≤ |other - n|

private theorem Binary64.ofInt_nearest {n : ℤ} (small : |(n : ℚ)| < overflowBound) :
    (ofInt n).Normalized ∧ ∃ nearest : ℤ, (ofInt n).toRat = nearest ∧ NearestDouble n nearest := by
  have rounding := ofInt_of_lt small
  have integral : ∃ nearest : ℤ, (ofInt n).toRat = nearest := by
    rcases le_or_gt |n| (2 ^ 53) with short | long
    · exact ⟨n, rounding.eq_of_onGrid (onGrid_int short)⟩
    · -- beyond the integers of 53 bits there are no others
      have beyond : (2 : ℚ) ^ (52 + 1) ≤ |(ofInt n).toRat| := by
        have grid : OnGrid (2 ^ 53) := by exact_mod_cast onGrid_int (le_of_eq (abs_of_pos (by norm_num)))
        rcases lt_abs.mp long with above | below
        · have above : (2 : ℚ) ^ 53 ≤ n := by exact_mod_cast above.le
          exact (rounding.le_of_le grid above).trans (le_abs_self _)
        · have below : (n : ℚ) ≤ -2 ^ 53 := by exact_mod_cast (show n ≤ -2 ^ 53 by omega)
          exact (le_neg_of_le_neg (rounding.ge_of_ge grid.neg below)).trans (neg_le_abs _)
      obtain ⟨nearest, same⟩ := rounding.normalized.multiple beyond
      exact ⟨nearest * 2, by rw [same]; push_cast; ring⟩
  obtain ⟨nearest, same⟩ := integral
  refine ⟨rounding.normalized, nearest, same, ⟨_, rounding.normalized, same⟩, ?_⟩
  rintro other ⟨x, normalized, value⟩
  have near := rounding.nearest _ normalized.onGrid
  rw [same,value] at near
  exact_mod_cast near

private theorem isDouble_of_abs_le {n : ℤ} (small : |n| ≤ 2 ^ 53) : IsDouble n := ⟨_, Binary64.ofInt_of_abs_le small⟩

private theorem IsDouble.abs_lt {n : ℤ} (double : IsDouble n) : |(n : ℚ)| < Binary64.overflowBound := by
  obtain ⟨x, normalized, same⟩ := double
  rw [← same]
  exact normalized.abs_lt

namespace NearestDouble

variable {n nearest : ℤ} (close : NearestDouble n nearest)
include close

private theorem eq_of_isDouble (double : IsDouble n) : nearest = n := by
  have near := close.near n double
  rw [sub_self,abs_zero] at near
  exact sub_eq_zero.mp (abs_nonpos_iff.mp near)

private theorem ne_zero (nonzero : n ≠ 0) : nearest ≠ 0 := by
  rintro rfl
  rcases lt_or_gt_of_ne nonzero with negative | positive
  · have near := close.near (-1) (isDouble_of_abs_le (by norm_num))
    rw [abs_of_nonneg (by omega),abs_of_nonneg (by omega)] at near
    omega
  · have near := close.near 1 (isDouble_of_abs_le (by norm_num))
    rw [abs_of_nonpos (by omega),abs_of_nonpos (by omega)] at near
    omega

end NearestDouble

private theorem tmod_spec (a : ℤ) {b : ℤ} (nonzero : b ≠ 0) :
    |a.tmod b| < |b| ∧ (a.tmod b = 0 ∨ (a.tmod b).sign = a.sign) ∧ b ∣ a - a.tmod b := by
  refine ⟨?_, ?_, ?_⟩
  · rw [Int.abs_eq_natAbs,Int.abs_eq_natAbs,Int.natAbs_tmod]
    exact_mod_cast Nat.mod_lt _ (Int.natAbs_pos.mpr nonzero)
  · refine or_iff_not_imp_left.mpr fun solid => ?_
    rcases lt_trichotomy a 0 with negative | rfl | positive
    · have opposite := Int.tmod_nonneg b (Int.neg_nonneg_of_nonpos negative.le)
      rw [Int.neg_tmod] at opposite
      rw [Int.sign_eq_neg_one_of_neg negative,Int.sign_eq_neg_one_of_neg (by omega)]
    · exact absurd (Int.zero_tmod b) solid
    · have nonneg := Int.tmod_nonneg b positive.le
      rw [Int.sign_eq_one_of_pos positive,Int.sign_eq_one_of_pos (by omega)]
  · rw [Int.tmod_def,sub_sub_cancel]
    exact Int.dvd_mul_right b _

namespace Number

private theorem toFloat_of_lt {n : ℤ} (small : |(n : ℚ)| < Binary64.overflowBound) :
    (Number.int n).toFloat = .ok (Binary64.ofInt n) := by
  have finite := (Binary64.ofInt_of_lt small).normalized.isFinite
  rw [toFloat]
  cases shape : Binary64.ofInt n with
  | infinite =>
    rw [shape] at finite
    cases finite
  | _ => rfl

private theorem toFloat_of_le {n : ℤ} (large : Binary64.overflowBound ≤ |(n : ℚ)|) :
    (Number.int n).toFloat = .error .integerTooLarge := by
  rw [toFloat,Binary64.ofInt_of_le large]

/-- The remainder of two integers is that of the floating-point numbers nearest to them. -/
private theorem rem_int {a b : ℤ} (small : |(a : ℚ)| < Binary64.overflowBound)
    (small' : |(b : ℚ)| < Binary64.overflowBound) (nonzero : b ≠ 0) :
    ∃ x y, NearestDouble a x ∧ NearestDouble b y ∧
      ∃ rest : Binary64, rem (.int a) (.int b) = .ok (.float rest) ∧ rest.toInt? = some (x.tmod y) := by
  obtain ⟨normalized, x, same, close⟩ := Binary64.ofInt_nearest small
  obtain ⟨normalized', y, same', close'⟩ := Binary64.ofInt_nearest small'
  obtain ⟨finite, value⟩ := Binary64.rem_of_int normalized normalized' same same' (close'.ne_zero nonzero)
  refine ⟨x, y, close, close', _, ?_, Binary64.toInt?_of_eq finite.isFinite value⟩
  rw [rem,toFloat_of_lt small,toFloat_of_lt small']
  have plain := normalized.isFinite
  cases shape : Binary64.ofInt a with
  | finite => rfl
  | _ =>
    rw [shape] at plain
    cases plain

private theorem rem_tooLarge {a b : ℤ}
    (large : Binary64.overflowBound ≤ |(a : ℚ)| ∨ Binary64.overflowBound ≤ |(b : ℚ)|) :
    rem (.int a) (.int b) = .error .integerTooLarge := by
  rw [rem]
  rcases lt_or_ge |(a : ℚ)| Binary64.overflowBound with small | large'
  · rw [toFloat_of_lt small,toFloat_of_le (large.resolve_left (not_le.mpr small))]
    rfl
  · rw [toFloat_of_le large']
    rfl

end Number

private theorem Operator.apply_rem (heap : Heap) (a : ℤ) {b : ℤ} (nonzero : b ≠ 0) (leftToken rightToken : Token) :
    Operator.rem.apply heap (.int a) (.int b) leftToken rightToken =
      arithmetic Number.rem (.int a) (.int b) := by
  have solid : ¬(Number.int b).isZero = true := by simpa [Number.isZero] using nonzero
  exact if_neg solid

private theorem Expression.value_rem {lookup : String → Option Value} {heap : Heap} {left right : Expression} {a b : ℤ}
    (dividend : left.value lookup heap = .ok (.int a)) (divisor : right.value lookup heap = .ok (.int b))
    (nonzero : b ≠ 0) :
    (Expression.binary .rem left right).value lookup heap =
      Operator.arithmetic Number.rem (.int a) (.int b) := by
  rw [Expression.value,dividend,divisor,← Operator.apply_rem heap a nonzero [] []]
  rfl

private theorem Outcome.eq_ok {α : Type} {heap : Heap} {outcome : Except Halt (α × Heap)} {value : α}
    (expected : Outcome heap outcome (.ok value)) : outcome = .ok (value, heap) := by
  rcases outcome with halt | ⟨found, after⟩
  · cases expected
  · obtain ⟨rfl, rfl⟩ := expected
    rfl

/-- An evaluation that is expected to fail does so with an error of the expected class. -/
private theorem Outcome.eq_error {α : Type} {heap : Heap} {outcome : Except Halt (α × Heap)} {wanted : Halt}
    (expected : Outcome heap outcome (.error wanted)) :
    ∃ halt, outcome = .error halt ∧ halt.class = wanted.class := by
  rcases outcome with halt | ⟨found, after⟩
  · exact ⟨halt, rfl, expected⟩
  · cases expected

/-- The remainder of two integers, as a text that spells it is evaluated. If both integers are floating-point
numbers, as all of 53 bits are, the remainder is exact: it is smaller than the divisor, has the sign of the
dividend and differs from it by a multiple of the divisor. Otherwise it is the remainder of the floating-point
numbers nearest to the two, and if one of these would be infinite, there is no remainder at all. -/
theorem remainders_are_those_of_nearest_doubles (lookup : String → Option Value)
    (names : ∀ name, (lookup name).isSome = true → isName name.toList = true) (heap : Heap)
    {left right : Expression} {text : Chars} (spelled : (Expression.binary .rem left right).Spelled 0 text)
    (shallow : 2 * (Expression.binary .rem left right).height ≤ nestingLimit) {a b : ℤ}
    (dividend : left.value lookup heap = .ok (.int a)) (divisor : right.value lookup heap = .ok (.int b))
    (nonzero : b ≠ 0) :
    (IsDouble a → IsDouble b → ∃ rest : ℤ, evaluate lookup text heap = .ok (.int rest, heap) ∧
      |rest| < |b| ∧ (rest = 0 ∨ rest.sign = a.sign) ∧ b ∣ a - rest) ∧
    (|(a : ℚ)| < Binary64.overflowBound → |(b : ℚ)| < Binary64.overflowBound →
      ∃ x y, NearestDouble a x ∧ NearestDouble b y ∧ evaluate lookup text heap = .ok (.int (x.tmod y), heap)) ∧
    (Binary64.overflowBound ≤ |(a : ℚ)| ∨ Binary64.overflowBound ≤ |(b : ℚ)| →
      ∃ halt, evaluate lookup text heap = .error halt ∧ halt.class = .crash .overflow) := by
  have settled : Outcome heap (evaluate lookup text heap)
      (Operator.arithmetic Number.rem (.int a) (.int b)) := by
    rw [← Expression.value_rem dividend divisor nonzero]
    exact (Expression.settles names spelled nestingLimit text spelled.trimmed.trim_eq).1.resolve_right
      fun ⟨deep, _⟩ => absurd deep (not_lt.mpr shallow)
  have rounded (small : |(a : ℚ)| < Binary64.overflowBound) (small' : |(b : ℚ)| < Binary64.overflowBound) :
      ∃ x y, NearestDouble a x ∧ NearestDouble b y ∧
        evaluate lookup text heap = .ok (.int (x.tmod y), heap) := by
    obtain ⟨x, y, close, close', rest, run, same⟩ := Number.rem_int small small' nonzero
    have value : Operator.arithmetic Number.rem (.int a) (.int b) = .ok (.int (x.tmod y)) := by
      simp only [Operator.arithmetic,run,Number.normalize,same]
      rfl
    rw [value] at settled
    exact ⟨x, y, close, close', settled.eq_ok⟩
  refine ⟨fun double double' => ?_, rounded, fun large => ?_⟩
  · obtain ⟨x, y, close, close', run⟩ := rounded double.abs_lt double'.abs_lt
    rw [close.eq_of_isDouble double,close'.eq_of_isDouble double'] at run
    exact ⟨a.tmod b, run, tmod_spec a nonzero⟩
  · rw [Operator.arithmetic,Number.rem_tooLarge large] at settled
    exact settled.eq_error

namespace LargeDividend

/-- A name for an integer of more than 53 bits that is a floating-point number, and one for a divisor. -/
def lookup (name : String) : Option Value :=
  if name = "a" then some (.int (-2 ^ 60)) else if name = "b" then some (.int 3) else none

/-- The remainder of the two. -/
def expression : Expression :=
  .binary .rem (.leaf (.name ⟨['a'], by decide, by decide⟩)) (.leaf (.name ⟨['b'], by decide, by decide⟩))

private theorem spelled : expression.Spelled 0 "a % b".toList :=
  .binary .rem 1 1 (Nat.zero_le _) (.leaf _ _) (.leaf _ _)

private theorem names (name : String) (known : (lookup name).isSome = true) : isName name.toList = true := by
  by_cases first : name = "a"
  · rw [first]
    decide
  · by_cases second : name = "b"
    · rw [second]
      decide
    · simp [lookup,first,second] at known

end LargeDividend

open LargeDividend in
theorem remainders_are_those_of_nearest_doubles_large :
    IsDouble (-2 ^ 60) ∧ ∃ rest : ℤ, evaluate lookup "a % b".toList {} = .ok (.int rest, {}) ∧
      |rest| < |3| ∧ (rest = 0 ∨ rest.sign = (-2 ^ 60 : ℤ).sign) ∧ 3 ∣ -2 ^ 60 - rest := by
  have power : IsDouble (-2 ^ 60) := by
    refine ⟨.finite true (2 ^ 52) 8, ⟨by decide, by decide, by decide, .inl le_rfl⟩, ?_⟩
    norm_num [Binary64.toRat,Binary64.sign]
  exact ⟨power, (remainders_are_those_of_nearest_doubles lookup names {} spelled (by decide) rfl rfl
    (by decide)).1 power (isDouble_of_abs_le (by decide))⟩

namespace OddDividend

/-- The remainder of the least positive integer that is no floating-point number. -/
def expression : Expression :=
  .binary .rem (.leaf (.integer ⟨"9007199254740993".toList, by decide, by decide, by decide⟩))
    (.leaf (.integer ⟨"2".toList, by decide, by decide, by decide⟩))

private theorem spelled : expression.Spelled 0 "9007199254740993 % 2".toList :=
  .binary .rem 1 1 (Nat.zero_le _) (.leaf _ _) (.leaf _ _)

private theorem value : expression.value (fun _ => none) {} = .ok (.int 0) := by
  have given : (expression.value (fun _ => none) {}).toOption = some (.int 0) := by decide +kernel
  cases found : expression.value (fun _ => none) {} with
  | error halt =>
    rw [found] at given
    cases given
  | ok value =>
    rw [found] at given
    exact congrArg Except.ok (Option.some.inj given)

end OddDividend

open OddDividend in
/-- The remainder of an odd number beyond 53 bits is that of an even one. -/
theorem odd_remainder_is_lost :
    evaluate (fun _ => none) "9007199254740993 % 2".toList {} = .ok (.int 0, {}) ∧
      ¬(2 : ℤ) ∣ 9007199254740993 - 0 := by
  refine ⟨Outcome.eq_ok ?_, by decide⟩
  rw [← value]
  exact (Expression.settles (by simp) spelled nestingLimit _ spelled.trimmed.trim_eq).1.resolve_right
    fun ⟨deep, _⟩ => absurd deep (by decide)

end Inyandiko
