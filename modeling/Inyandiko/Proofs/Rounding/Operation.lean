import Inyandiko.Proofs.Rounding

/-! Floating-point operations in terms of rational numbers: sums are rounded once, remainders are exact, and
comparisons and integer parts are those of the rational numbers. -/
namespace Inyandiko.Binary64

private theorem abs_sign (negative : Bool) : |sign negative| = 1 := by cases negative <;> simp [sign]

theorem abs_toRat (negative : Bool) (significand : ℕ) (exponent : ℤ) :
    |toRat (.finite negative significand exponent)| = significand * 2 ^ exponent := by
  rw [toRat,abs_mul,abs_sign,one_mul,abs_of_nonneg (mul_nonneg (Nat.cast_nonneg _) (two_zpow_pos _).le)]

theorem two_pow_lt_overflowBound : (2 : ℚ) ^ 55 < overflowBound := by
  obtain ⟨half, -, -, bound, lower⟩ := exists_half
  have four : 4 ≤ half := le_trans (by norm_num) (lower 2 (by decide))
  rw [bound]
  linarith

theorem ofInt_of_abs_le {n : ℤ} (small : |n| ≤ 2 ^ 53) : (ofInt n).Normalized ∧ (ofInt n).toRat = n := by
  have bounded : |(n : ℚ)| ≤ 2 ^ 53 := by exact_mod_cast small
  have rounding := ofInt_of_lt (lt_of_le_of_lt (by linarith) two_pow_lt_overflowBound)
  exact ⟨rounding.normalized, rounding.eq_of_onGrid (onGrid_int small)⟩

private theorem onGrid_nat {significand : ℕ} {exponent : ℤ} (small : significand ≤ 2 ^ 53)
    (least : leastExponent ≤ exponent) : OnGrid (significand * 2 ^ exponent) :=
  ⟨significand, exponent, by rw [Nat.abs_cast]; exact_mod_cast small, least, by rw [Int.cast_natCast]⟩

namespace Normalized

variable {x : Binary64} (normalized : x.Normalized)
include normalized

theorem isFinite : x.isFinite = true := by
  cases x with
  | finite => rfl
  | infinite => cases normalized
  | nan => cases normalized

theorem onGrid : OnGrid x.toRat := by
  cases x with
  | finite negative significand exponent =>
    obtain ⟨small, least, -, -⟩ := normalized
    exact (onGrid_nat small.le least).sign_mul negative
  | infinite => cases normalized
  | nan => cases normalized

/-- There is room for another one before the numbers that are rounded to infinity. -/
theorem abs_add_one_lt : |x.toRat| + 1 < overflowBound := by
  cases x with
  | finite negative significand exponent =>
    obtain ⟨small, -, fits, -⟩ := normalized
    obtain ⟨half, positive, unit, bound, lower⟩ := exists_half
    have small : (significand : ℚ) + 1 ≤ 2 ^ 53 := by exact_mod_cast (show significand + 1 ≤ 2 ^ 53 from small)
    have two : 2 ≤ half := (zpow_one (2 : ℚ)).symm.trans_le (lower 1 (by decide))
    have most : (significand : ℚ) * 2 ^ exponent ≤ (2 ^ 53 - 1) * 2 ^ greatestExponent :=
      mul_le_mul (by linarith) (two_zpow_le fits) (two_zpow_pos _).le (by norm_num)
    rw [unit] at most
    rw [abs_toRat,bound]
    linarith
  | infinite => cases normalized
  | nan => cases normalized

theorem abs_lt : |x.toRat| < overflowBound := (lt_add_one _).trans normalized.abs_add_one_lt

/-- Large numbers are multiples of powers of two. -/
theorem multiple {bits : ℕ} (large : 2 ^ (52 + bits) ≤ |x.toRat|) : ∃ n : ℤ, x.toRat = n * 2 ^ bits := by
  cases x with
  | finite negative significand exponent =>
    obtain ⟨small, -, -, -⟩ := normalized
    have small : (significand : ℚ) < 2 ^ 53 := by exact_mod_cast small
    rw [abs_toRat] at large
    have above : (bits : ℤ) ≤ exponent := by
      by_contra below
      have least : (2 : ℚ) ^ exponent ≤ 2 ^ ((bits : ℤ) - 1) := two_zpow_le (by omega)
      have half : 2 * (2 : ℚ) ^ ((bits : ℤ) - 1) = 2 ^ bits := by
        rw [← two_zpow_succ,sub_add_cancel,zpow_natCast]
      have bounded : (significand : ℚ) * 2 ^ exponent < 2 ^ 53 * 2 ^ ((bits : ℤ) - 1) :=
        mul_lt_mul_of_lt_of_le_of_nonneg_of_pos small least (Nat.cast_nonneg _) (two_zpow_pos _)
      rw [pow_add] at large
      linarith
    obtain ⟨more, rfl⟩ := Int.le.dest above
    refine ⟨(if negative then -1 else 1) * (significand * 2 ^ more), ?_⟩
    rw [toRat,two_zpow_add,zpow_natCast,zpow_natCast,sign]
    cases negative <;> simp <;> ring
  | infinite => cases normalized
  | nan => cases normalized

end Normalized

private theorem mantissaAt_mul (negative : Bool) (significand : ℕ) {own exponent : ℤ} (below : exponent ≤ own) :
    (mantissaAt negative significand own exponent : ℚ) * 2 ^ exponent =
      toRat (.finite negative significand own) := by
  obtain ⟨more, rfl⟩ := Int.le.dest below
  have power : (Nat.pow 2 (exponent + (more : ℤ) - exponent).natAbs : ℤ) = 2 ^ more := by
    rw [add_sub_cancel_left,Int.natAbs_natCast]
    exact_mod_cast rfl
  rw [mantissaAt,power,toRat,two_zpow_add,zpow_natCast,sign]
  cases negative <;> simp <;> ring

/-- A sum is rounded once. -/
theorem add_of_lt {x y : Binary64} (finite : x.isFinite = true) (finite' : y.isFinite = true)
    (small : |x.toRat + y.toRat| < overflowBound) : RoundingOf (x.toRat + y.toRat) (x.add y) := by
  cases x with
  | finite negative significand exponent =>
    cases y with
    | finite negative' significand' exponent' =>
      have sum : toRat (.finite negative significand exponent) + toRat (.finite negative' significand' exponent') =
          (mantissaAt negative significand exponent (min exponent exponent') +
            mantissaAt negative' significand' exponent' (min exponent exponent') : ℤ) *
            2 ^ min exponent exponent' := by
        rw [Int.cast_add,add_mul,mantissaAt_mul _ _ (min_le_left _ _),mantissaAt_mul _ _ (min_le_right _ _)]
      rw [sum] at small ⊢
      rw [add]
      generalize mantissaAt negative significand exponent (min exponent exponent') +
        mantissaAt negative' significand' exponent' (min exponent exponent') = total at small ⊢
      generalize min exponent exponent' = unit at small ⊢
      split
      · rename_i zero
        subst zero
        refine ⟨⟨by norm_num, le_rfl, by decide, .inr rfl⟩, fun other _ => ?_⟩
        simp [Binary64.zero,toRat]
      · have magnitude : |(total : ℚ) * 2 ^ unit| = total.natAbs * 2 ^ unit := by
          rw [abs_mul,abs_of_pos (two_zpow_pos unit),Nat.cast_natAbs,Int.cast_abs]
        rw [magnitude] at small
        have rounding := roundScaled_of_lt (total < 0) total.natAbs unit small
        rwa [← mul_assoc,sign_mul_natAbs] at rounding
    | infinite => cases finite'
    | nan => cases finite'
  | infinite => cases finite
  | nan => cases finite

theorem compare?_eq {x y : Binary64} (finite : x.isFinite = true) (finite' : y.isFinite = true) :
    x.compare? y = some (cmp x.toRat y.toRat) := by
  cases x with
  | finite negative significand exponent =>
    cases y with
    | finite negative' significand' exponent' =>
      rw [compare?]
      rw [← mantissaAt_mul negative significand (min_le_left exponent exponent'),
        ← mantissaAt_mul negative' significand' (min_le_right exponent exponent'),
        cmp_mul_pos_right (two_zpow_pos _),Int.cast_strictMono.cmp_map_eq,cmp_eq_compare]
    | infinite => cases finite'
    | nan => cases finite'
  | infinite => cases finite
  | nan => cases finite

private theorem toRat_of_neg (negative : Bool) (significand : ℕ) {exponent : ℤ} (below : exponent < 0) :
    toRat (.finite negative significand exponent) =
      (mantissaAt negative significand 0 0 : ℚ) / (2 ^ exponent.natAbs : ℕ) := by
  have whole := mantissaAt_mul negative significand (le_refl 0)
  rw [zpow_zero,mul_one] at whole
  have power : (2 : ℚ) ^ exponent = ((2 ^ exponent.natAbs : ℕ) : ℚ)⁻¹ := by
    rw [Nat.cast_pow,Nat.cast_ofNat,← zpow_natCast,← zpow_neg]
    congr 1
    omega
  rw [whole,toRat,toRat,power,zpow_zero,mul_one,div_eq_mul_inv,mul_assoc]

theorem compareInt?_eq {x : Binary64} (finite : x.isFinite = true) (n : ℤ) :
    x.compareInt? n = some (cmp x.toRat n) := by
  cases x with
  | finite negative significand exponent =>
    rw [compareInt?]
    split
    · rename_i below
      have positive : (0 : ℚ) < (2 ^ exponent.natAbs : ℕ) := by positivity
      rw [toRat_of_neg negative significand below,← cmp_mul_pos_right positive,div_mul_cancel₀ _ positive.ne',
        ← cmp_eq_compare,← Int.cast_strictMono (R := ℚ) |>.cmp_map_eq]
      norm_num
    · rename_i above
      have whole := mantissaAt_mul negative significand (not_lt.mp above)
      rw [zpow_zero,mul_one] at whole
      rw [← whole,Int.cast_strictMono.cmp_map_eq,cmp_eq_compare]
  | infinite => cases finite
  | nan => cases finite

theorem floor?_eq {x : Binary64} (finite : x.isFinite = true) : x.floor? = some ⌊x.toRat⌋ := by
  cases x with
  | finite negative significand exponent =>
    rw [floor?]
    split
    · rename_i below
      rw [toRat_of_neg negative significand below,Rat.floor_intCast_div_natCast,
        Int.fdiv_eq_ediv_of_nonneg _ (Int.natCast_nonneg _)]
      rfl
    · rename_i above
      have whole := mantissaAt_mul negative significand (not_lt.mp above)
      rw [zpow_zero,mul_one] at whole
      rw [← whole,Int.floor_intCast]
  | infinite => cases finite
  | nan => cases finite

theorem toInt?_of_eq {x : Binary64} (finite : x.isFinite = true) {n : ℤ} (same : x.toRat = n) :
    x.toInt? = some n := by
  rw [toInt?,floor?_eq finite,same,Int.floor_intCast]
  simp [compareInt?_eq finite,same]

private theorem mod_mul_zpow {dividend divisor whole part : ℕ} {unit : ℤ} (same : (dividend * 2 ^ unit : ℚ) = whole)
    (same' : (divisor * 2 ^ unit : ℚ) = part) :
    ((dividend % divisor : ℕ) * 2 ^ unit : ℚ) = (whole % part : ℕ) := by
  obtain ⟨bits, rfl | rfl⟩ := Int.eq_nat_or_neg unit
  · rw [zpow_natCast] at same same' ⊢
    have product : dividend * 2 ^ bits = whole := by exact_mod_cast same
    have product' : divisor * 2 ^ bits = part := by exact_mod_cast same'
    rw [← product,← product',Nat.mul_mod_mul_right]
    push_cast
    ring
  · have power : (0 : ℚ) < 2 ^ bits := by positivity
    rw [zpow_neg,zpow_natCast,← div_eq_mul_inv] at same same' ⊢
    rw [div_eq_iff power.ne'] at same same' ⊢
    have product : dividend = whole * 2 ^ bits := by exact_mod_cast same
    have product' : divisor = part * 2 ^ bits := by exact_mod_cast same'
    rw [product,product',Nat.mul_mod_mul_right]
    push_cast
    ring

private theorem tmod_eq_sign_mul {negative : Bool} {a : ℤ} (signed : (a : ℚ) = sign negative * a.natAbs) (b : ℤ) :
    (a.tmod b : ℚ) = sign negative * (a.natAbs % b.natAbs : ℕ) := by
  have unsigned : (a.natAbs : ℤ).tmod b = (a.natAbs % b.natAbs : ℕ) := by
    rcases Int.natAbs_eq b with same | same <;> rw [same]
    · rw [Int.natAbs_natCast,Int.ofNat_tmod]
    · rw [Int.tmod_neg,Int.natAbs_neg,Int.natAbs_natCast,Int.ofNat_tmod]
  rw [← Int.cast_natCast,← unsigned]
  cases negative with
  | false =>
    rw [sign,if_neg Bool.false_ne_true,one_mul] at signed ⊢
    rw [Rat.intCast_inj.mp (signed.trans (Int.cast_natCast _).symm),Int.natAbs_natCast]
  | true =>
    rw [sign,if_pos rfl,neg_one_mul] at signed ⊢
    have opposite : a = -(a.natAbs : ℤ) := by
      rw [← Rat.intCast_inj,Int.cast_neg,Int.cast_natCast]
      exact signed
    rw [← Int.cast_neg,← Int.neg_tmod,← opposite]

private theorem shifted_mul (significand : ℕ) {own unit : ℤ} (below : unit ≤ own) :
    ((significand * Nat.pow 2 (own - unit).natAbs : ℕ) * 2 ^ unit : ℚ) = significand * 2 ^ own := by
  obtain ⟨more, rfl⟩ := Int.le.dest below
  rw [add_sub_cancel_left,Int.natAbs_natCast,Nat.pow_eq,two_zpow_add,zpow_natCast]
  push_cast
  ring

/-- The remainder of two integers among the finite numbers is exact: its significand is not above one of
theirs. -/
theorem rem_of_int {x y : Binary64} (normalized : x.Normalized) (normalized' : y.Normalized) {a b : ℤ}
    (same : x.toRat = a) (same' : y.toRat = b) (nonzero : b ≠ 0) :
    (x.rem y).Normalized ∧ (x.rem y).toRat = a.tmod b := by
  cases x with
  | finite negative significand exponent =>
    cases y with
    | finite negative' significand' exponent' =>
      have small := normalized.abs_lt
      obtain ⟨bits, least, -, -⟩ := normalized
      obtain ⟨bits', least', -, -⟩ := normalized'
      have magnitude : (significand * 2 ^ exponent : ℚ) = a.natAbs := by
        rw [← abs_toRat negative,same,Nat.cast_natAbs,Int.cast_abs]
      have magnitude' : (significand' * 2 ^ exponent' : ℚ) = b.natAbs := by
        rw [← abs_toRat negative',same',Nat.cast_natAbs,Int.cast_abs]
      have solid : significand' ≠ 0 := by
        rintro rfl
        rw [Nat.cast_zero,zero_mul] at magnitude'
        exact nonzero (Int.natAbs_eq_zero.mp (by exact_mod_cast magnitude'.symm))
      obtain ⟨unit, known⟩ : ∃ unit, unit = min exponent exponent' := ⟨_, rfl⟩
      have product := shifted_mul significand (known.trans_le (min_le_left _ _))
      have product' := shifted_mul significand' (known.trans_le (min_le_right _ _))
      have value := mod_mul_zpow (product.trans magnitude) (product'.trans magnitude')
      obtain ⟨dividend, shifted⟩ : ∃ n, n = significand * Nat.pow 2 (exponent - unit).natAbs := ⟨_, rfl⟩
      obtain ⟨divisor, shifted'⟩ : ∃ n, n = significand' * Nat.pow 2 (exponent' - unit).natAbs := ⟨_, rfl⟩
      have form : rem (.finite negative significand exponent) (.finite negative' significand' exponent') =
          roundScaled negative (dividend % divisor) unit := by
        rw [rem,if_neg solid,shifted,shifted',known]
      rw [← shifted,← shifted'] at value
      rw [form]
      have short : dividend % divisor ≤ 2 ^ 53 := by
        rcases min_choice exponent exponent' with first | second
        · have own : dividend = significand := by rw [shifted,known,first,sub_self]; simp
          rw [own]
          exact (Nat.mod_le _ _).trans bits.le
        · have own : divisor = significand' := by rw [shifted',known,second,sub_self]; simp
          rw [own]
          exact (Nat.mod_lt _ (Nat.pos_of_ne_zero solid)).le.trans bits'.le
      have grid : OnGrid ((dividend % divisor : ℕ) * 2 ^ unit) := onGrid_nat short (by omega)
      have below : ((dividend % divisor : ℕ) * 2 ^ unit : ℚ) < overflowBound := by
        rw [value]
        refine lt_of_le_of_lt ?_ small
        rw [abs_toRat,magnitude]
        exact_mod_cast Nat.mod_le _ _
      have rounding := roundScaled_of_lt negative (dividend % divisor) unit below
      refine ⟨rounding.normalized, ?_⟩
      rw [rounding.eq_of_onGrid (grid.sign_mul negative),value]
      refine (tmod_eq_sign_mul ?_ b).symm
      rw [← magnitude,← same,toRat]
    | infinite => cases normalized'
    | nan => cases normalized'
  | infinite => cases normalized
  | nan => cases normalized

end Inyandiko.Binary64
