import Inyandiko.Proofs.Rounding.Operation

/-! Steps of one among floating-point numbers, upward and downward. A step that is seen in its own direction is
upward, so that both directions are treated alike. Steps do not go beyond `2 ^ 53`, where the first one is lost to
rounding, and beyond `2 ^ 54` all of them are lost. -/
namespace Inyandiko.Binary64

theorem toRat_neg (x : Binary64) : x.neg.toRat = -x.toRat := by
  cases x with
  | finite negative => cases negative <;> simp [neg,toRat,sign]
  | infinite => simp [neg,toRat]
  | nan => simp [neg,toRat]

theorem isFinite_neg {x : Binary64} (finite : x.isFinite = true) : x.neg.isFinite = true := by
  cases x with
  | finite => rfl
  | infinite => cases finite
  | nan => cases finite

private theorem Normalized.neg {x : Binary64} (normalized : x.Normalized) : x.neg.Normalized := by
  cases x with
  | finite => exact normalized
  | infinite => cases normalized
  | nan => cases normalized

private theorem RoundingOf.neg {value : ℚ} {x : Binary64} (rounding : RoundingOf value x) :
    RoundingOf (-value) x.neg := by
  refine ⟨rounding.normalized.neg, fun other grid => ?_⟩
  have near := rounding.nearest _ grid.neg
  rw [← abs_neg,← abs_neg (-other - value)] at near
  rw [toRat_neg]
  convert near using 2 <;> ring

/-- A number as it is seen along the way of a loop, on which numbers grow. -/
def facing (upward : Bool) (x : Binary64) : Binary64 := if upward then x else x.neg

/-- The number that follows in a loop. -/
def stride (upward : Bool) (x : Binary64) : Binary64 := x.add (.ofInt (if upward then 1 else -1))

private theorem Normalized.facing {x : Binary64} (normalized : x.Normalized) (upward : Bool) :
    (x.facing upward).Normalized := by
  cases upward with
  | true => exact normalized
  | false => exact normalized.neg

private theorem facing_facing (upward : Bool) (x : Binary64) : (x.facing upward).facing upward = x := by
  cases upward with
  | true => rfl
  | false => cases x <;> simp [facing,neg]

theorem abs_toRat_facing (upward : Bool) (x : Binary64) : |(x.facing upward).toRat| = |x.toRat| := by
  cases upward with
  | true => rfl
  | false => rw [facing,if_neg Bool.false_ne_true,toRat_neg,abs_neg]

private theorem add_unit {x : Binary64} (finite : x.isFinite = true) (small : |x.toRat| + 1 < overflowBound) {n : ℤ}
    (unit : |n| = 1) : RoundingOf (x.toRat + n) (x.add (.ofInt n)) := by
  obtain ⟨normalized, same⟩ := ofInt_of_abs_le (n := n) (by rw [unit]; norm_num)
  have size : |(n : ℚ)| = 1 := by exact_mod_cast unit
  have bounded : |x.toRat + (ofInt n).toRat| < overflowBound := by
    rw [same]
    exact (abs_add_le _ _).trans_lt (by rwa [size])
  have rounding := add_of_lt finite normalized.isFinite bounded
  rwa [same] at rounding

/-- A step is one, rounded. -/
theorem stride_rounding {x : Binary64} (finite : x.isFinite = true) (small : |x.toRat| + 1 < overflowBound)
    (upward : Bool) : RoundingOf ((x.facing upward).toRat + 1) ((x.stride upward).facing upward) := by
  cases upward with
  | true =>
    have rounding := add_unit finite small (show |(1 : ℤ)| = 1 by decide)
    rwa [Int.cast_one] at rounding
  | false =>
    have rounding := add_unit finite small (show |(-1 : ℤ)| = 1 by decide)
    have value : (x.facing false).toRat + 1 = -(x.toRat + (-1 : ℤ)) := by
      rw [facing,if_neg Bool.false_ne_true,toRat_neg]
      push_cast
      ring
    rw [value]
    exact rounding.neg

theorem stride_normalized {x : Binary64} (finite : x.isFinite = true) (small : |x.toRat| + 1 < overflowBound)
    (upward : Bool) : (x.stride upward).Normalized := by
  have normalized := (stride_rounding finite small upward).normalized.facing upward
  rwa [facing_facing] at normalized

private theorem exponent_le_of_eq {significand significand' : ℕ} {exponent exponent' : ℤ} (small : significand < 2 ^ 53)
    (least : leastExponent ≤ exponent) (normal : 2 ^ 52 ≤ significand' ∨ exponent' = leastExponent)
    (same : (significand * 2 ^ exponent : ℚ) = significand' * 2 ^ exponent') : exponent' ≤ exponent := by
  by_contra above
  -- the other significand has 53 bits, and so this one would have 54
  have full : 2 ^ 52 ≤ significand' := normal.resolve_right (by omega)
  have small : (significand : ℚ) < 2 ^ 53 := by exact_mod_cast small
  have full : (2 ^ 52 : ℚ) ≤ significand' := by exact_mod_cast full
  have unit := two_zpow_pos exponent
  have double : 2 * (2 : ℚ) ^ exponent ≤ 2 ^ exponent' := by
    rw [← two_zpow_succ]
    exact two_zpow_le (by omega)
  have less : (significand * 2 ^ exponent : ℚ) < 2 ^ 53 * 2 ^ exponent := mul_lt_mul_of_pos_right small unit
  have more : (2 ^ 52 * (2 * 2 ^ exponent) : ℚ) ≤ significand' * 2 ^ exponent' :=
    mul_le_mul full double (by positivity) (by positivity)
  linarith

private theorem Normalized.eq_of_toRat_eq {x y : Binary64} (normalized : x.Normalized) (normalized' : y.Normalized)
    (same : x.toRat = y.toRat) (nonzero : x.toRat ≠ 0) : x = y := by
  cases x with
  | finite negative significand exponent =>
    cases y with
    | finite negative' significand' exponent' =>
      obtain ⟨small, least, -, normal⟩ := normalized
      obtain ⟨small', least', -, normal'⟩ := normalized'
      have size : (significand * 2 ^ exponent : ℚ) = significand' * 2 ^ exponent' := by
        rw [← abs_toRat negative,← abs_toRat negative',same]
      have unit : exponent = exponent' :=
        le_antisymm (exponent_le_of_eq small' least' normal size.symm) (exponent_le_of_eq small least normal' size)
      subst unit
      have whole : significand = significand' := by
        exact_mod_cast mul_right_cancel₀ (two_zpow_pos exponent).ne' size
      subst whole
      have signs : sign negative = sign negative' := by
        rw [toRat] at nonzero
        exact mul_right_cancel₀ (right_ne_zero_of_mul nonzero) same
      have equal : negative = negative' := by
        cases negative <;> cases negative' <;> first | rfl | norm_num [sign] at signs
      rw [equal]
    | infinite => cases normalized'
    | nan => cases normalized'
  | infinite => cases normalized
  | nan => cases normalized

/-- The number at which a step is lost. -/
def plateau : Binary64 := .finite false (2 ^ 52) 1

theorem normalized_plateau : plateau.Normalized := by
  refine ⟨by norm_num, by decide, by decide, .inl le_rfl⟩

theorem toRat_plateau : plateau.toRat = 2 ^ 53 := by
  rw [plateau,toRat,sign]
  norm_num

private theorem stride_plateau (upward : Bool) : (plateau.facing upward).stride upward = plateau.facing upward := by
  cases upward <;> decide +kernel

/-- Where all integers are on the grid, a rounded step passes an integer, and from an integer it comes to the next
one. -/
theorem RoundingOf.floor_add_one_le {value : ℚ} {x : Binary64} (rounding : RoundingOf (value + 1) x)
    (low : -2 ^ 53 ≤ value) (high : value < 2 ^ 53) :
    ⌊value⌋ + 1 ≤ x.toRat ∧ (value = ⌊value⌋ → x.toRat = value + 1) := by
  have least : -2 ^ 53 ≤ ⌊value⌋ := Int.le_floor.mpr (by exact_mod_cast low)
  have most : ⌊value⌋ < 2 ^ 53 := Int.floor_lt.mpr (by exact_mod_cast high)
  have grid : OnGrid ((⌊value⌋ + 1 : ℤ) : ℚ) := onGrid_int (abs_le.mpr ⟨by omega, by omega⟩)
  rw [Int.cast_add,Int.cast_one] at grid
  -- the next integer is on the grid and not above the sum, so rounding cannot fall short of it
  refine ⟨rounding.le_of_le grid (by linarith [Int.floor_le value]), fun integral => ?_⟩
  rw [← integral] at grid
  exact rounding.eq_of_onGrid grid

private theorem Normalized.integral {x : Binary64} (normalized : x.Normalized) (large : 2 ^ 52 ≤ |x.toRat|) :
    ∃ n : ℤ, x.toRat = n := by
  obtain ⟨n, same⟩ : ∃ n : ℤ, x.toRat = n * 2 ^ 0 := normalized.multiple large
  exact ⟨n, by rw [same,pow_zero,mul_one]⟩

private theorem facing_injective {upward : Bool} {x y : Binary64} (same : x.facing upward = y.facing upward) :
    x = y := by
  rw [← facing_facing upward x,same,facing_facing]

/-- Among large numbers, which are integers, a step is lost, or it comes to another integer. -/
private theorem stride_eq_or_add_one_le {x : Binary64} (normalized : x.Normalized) {upward : Bool} {n : ℤ}
    (place : (x.facing upward).toRat = n) (large : 2 ^ 53 ≤ n ∨ n < -2 ^ 53) :
    x.stride upward = x ∨ n + 1 ≤ ((x.stride upward).facing upward).toRat := by
  have normalized' := normalized.facing upward
  have rounding := stride_rounding normalized.isFinite normalized.abs_add_one_lt upward
  have reached := rounding.le_of_le normalized'.onGrid (by linarith)
  rcases eq_or_lt_of_le reached with same | further
  · have nonzero : ((x.stride upward).facing upward).toRat ≠ 0 := by
      rw [← same,place]
      exact_mod_cast (show n ≠ 0 by omega)
    exact .inl (facing_injective (rounding.normalized.eq_of_toRat_eq normalized' same.symm nonzero))
  · refine .inr (not_lt.mp fun short => ?_)
    rw [place] at further
    -- the sum would have been rounded to a number between two integers, where there is none
    have size : 2 ^ 52 ≤ |((x.stride upward).facing upward).toRat| := by
      rcases large with above | below
      · have above : (2 ^ 53 : ℚ) ≤ n := by exact_mod_cast above
        exact le_trans (by linarith) (le_abs_self _)
      · have below : (n : ℚ) + 1 ≤ -2 ^ 53 := by exact_mod_cast below
        exact le_trans (by linarith) (neg_le_abs _)
    obtain ⟨m, same⟩ := rounding.normalized.integral size
    rw [same] at further short
    have further : n < m := by exact_mod_cast further
    have short : m < n + 1 := by exact_mod_cast short
    omega

theorem stride_eq_or_passes {x : Binary64} (normalized : x.Normalized) (upward : Bool) :
    x.stride upward = x ∨ ⌊(x.facing upward).toRat⌋ + 1 ≤ ((x.stride upward).facing upward).toRat := by
  -- below the integers that are all on the grid and above them, every number is an integer
  have passes (large : 2 ^ 53 ≤ (x.facing upward).toRat ∨ (x.facing upward).toRat < -2 ^ 53) :
      x.stride upward = x ∨ ⌊(x.facing upward).toRat⌋ + 1 ≤ ((x.stride upward).facing upward).toRat := by
    have size : 2 ^ 52 ≤ |(x.facing upward).toRat| := by
      rcases large with above | below
      · exact le_trans (by linarith) (le_abs_self _)
      · exact le_trans (by linarith) (neg_le_abs _)
    obtain ⟨n, place⟩ := (normalized.facing upward).integral size
    rw [place] at large ⊢
    rw [Int.floor_intCast]
    exact stride_eq_or_add_one_le normalized place (by exact_mod_cast large)
  rcases lt_or_ge (x.facing upward).toRat (-2 ^ 53) with below | low
  · exact passes (.inr below)
  · rcases lt_or_ge (x.facing upward).toRat (2 ^ 53) with high | above
    · have rounding := stride_rounding normalized.isFinite normalized.abs_add_one_lt upward
      exact .inr (rounding.floor_add_one_le low high).1
    · exact passes (.inl above)

/-- No step goes beyond the plateau. -/
theorem stride_le_plateau {x : Binary64} (normalized : x.Normalized) {upward : Bool}
    (below : (x.facing upward).toRat ≤ 2 ^ 53) : ((x.stride upward).facing upward).toRat ≤ 2 ^ 53 := by
  rcases le_or_gt ((x.facing upward).toRat + 1) (2 ^ 53) with room | near
  · have grid : OnGrid ((2 ^ 53 : ℤ) : ℚ) := onGrid_int (by norm_num)
    have rounding := stride_rounding normalized.isFinite normalized.abs_add_one_lt upward
    exact_mod_cast rounding.ge_of_ge grid (by exact_mod_cast room)
  · -- the number is an integer, and so it is the plateau itself
    obtain ⟨n, integral⟩ := (normalized.facing upward).integral (le_trans (by linarith) (le_abs_self _))
    rw [integral] at near below
    have same : n = 2 ^ 53 := by
      have near : 2 ^ 53 < n + 1 := by exact_mod_cast near
      have below : n ≤ 2 ^ 53 := by exact_mod_cast below
      omega
    have place : (x.facing upward).toRat = plateau.toRat := by
      rw [integral,same,toRat_plateau]
      norm_num
    have nonzero : (x.facing upward).toRat ≠ 0 := by
      rw [place,toRat_plateau]
      norm_num
    have there : x.facing upward = plateau :=
      (normalized.facing upward).eq_of_toRat_eq normalized_plateau place nonzero
    rw [← facing_facing upward x,there,stride_plateau,facing_facing,toRat_plateau]

/-- Where all numbers are multiples of four, steps are lost. -/
theorem stride_of_large {x : Binary64} (normalized : x.Normalized) (large : 2 ^ 54 < |x.toRat|) (upward : Bool) :
    x.stride upward = x := by
  rw [← abs_toRat_facing upward] at large
  have normalized' := normalized.facing upward
  have rounding := stride_rounding normalized.isFinite normalized.abs_add_one_lt upward
  have near := rounding.nearest _ normalized'.onGrid
  rw [sub_add_cancel_left,abs_neg,abs_one,abs_le] at near
  obtain ⟨n, before⟩ : ∃ n : ℤ, (x.facing upward).toRat = n * 2 ^ 2 := normalized'.multiple large.le
  have place : (x.facing upward).toRat = (n * 4 : ℤ) := by
    rw [before]
    push_cast
    norm_num
  rw [place] at near large
  have beyond : 2 ^ 54 < |n * 4| := by exact_mod_cast large
  refine (stride_eq_or_add_one_le normalized place ?_).resolve_right fun further => ?_
  · rcases lt_abs.mp beyond with above | below
    · exact .inl (by omega)
    · exact .inr (by omega)
  · have large' : 2 ^ 54 ≤ |((x.stride upward).facing upward).toRat| := by
      rcases lt_abs.mp beyond with above | below
      · have above : (2 ^ 54 : ℚ) ≤ (n * 4 : ℤ) := by exact_mod_cast above.le
        exact le_trans (by linarith) (le_abs_self _)
      · have below : ((n * 4 : ℤ) : ℚ) + 4 ≤ -2 ^ 54 := by exact_mod_cast (show n * 4 + 4 ≤ -2 ^ 54 by omega)
        exact le_trans (by linarith) (neg_le_abs _)
    obtain ⟨m, after⟩ : ∃ m : ℤ, ((x.stride upward).facing upward).toRat = m * 2 ^ 2 :=
      rounding.normalized.multiple large'
    rw [after] at near further
    -- two multiples of four that are one or two apart
    have low : n * 4 + 1 ≤ m * 2 ^ 2 := by exact_mod_cast further
    have high : m * 2 ^ 2 ≤ n * 4 + 2 := by exact_mod_cast (show (m * 2 ^ 2 : ℚ) ≤ (n * 4 : ℤ) + 2 by linarith)
    omega

end Inyandiko.Binary64
