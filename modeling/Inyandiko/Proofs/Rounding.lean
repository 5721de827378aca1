import Mathlib
import Inyandiko.Number

/-! Rounding to double precision, in terms of the rational numbers that finite numbers stand for. A rounded
result is nearest to the exact one among all numbers on the grid of double precision, and of two nearest ones
it is the even one; it is infinite from the middle between the greatest finite number and the next power of
two on. -/
namespace Inyandiko.Binary64

/-- The sign of a number as a factor. -/
def sign (negative : Bool) : ℚ := if negative then -1 else 1

/-- The rational number that a finite number stands for. -/
def toRat : Binary64 → ℚ
  | .finite negative significand exponent => sign negative * (significand * 2 ^ exponent)
  | _ => 0

/-- A finite number in the only form that rounding gives: the significand has 53 bits, or the exponent is the
least one. -/
def Normalized : Binary64 → Prop
  | .finite _ significand exponent =>
    significand < 2 ^ 53 ∧ leastExponent ≤ exponent ∧ exponent ≤ greatestExponent ∧
      (2 ^ 52 ≤ significand ∨ exponent = leastExponent)
  | _ => False

/-- The grid of double precision, without an upper end. -/
def OnGrid (value : ℚ) : Prop :=
  ∃ significand exponent : ℤ, |significand| ≤ 2 ^ 53 ∧ leastExponent ≤ exponent ∧
    value = significand * 2 ^ exponent

theorem two_zpow_pos (exponent : ℤ) : (0 : ℚ) < 2 ^ exponent := zpow_pos two_pos exponent

theorem two_zpow_le {low high : ℤ} (le : low ≤ high) : (2 : ℚ) ^ low ≤ 2 ^ high :=
  zpow_le_zpow_right₀ one_le_two le

theorem two_zpow_add (first second : ℤ) : (2 : ℚ) ^ (first + second) = 2 ^ first * 2 ^ second :=
  zpow_add₀ two_ne_zero first second

private theorem scaled_spec (num : ℕ) {den : ℕ} (positive : 0 < den) (exponent : ℤ) :
    0 < (scaled num den exponent).2 ∧
      ((scaled num den exponent).1 : ℚ) / (scaled num den exponent).2 = num / den / 2 ^ exponent := by
  have solid : (den : ℚ) ≠ 0 := by positivity
  rw [scaled]
  split
  · rename_i below
    refine ⟨positive, ?_⟩
    have power : (2 : ℚ) ^ exponent = ((2 : ℚ) ^ exponent.natAbs)⁻¹ := by
      rw [← zpow_natCast,← zpow_neg]
      congr 1
      omega
    rw [power,Nat.pow_eq]
    push_cast
    field_simp
  · rename_i above
    refine ⟨Nat.mul_pos positive (Nat.two_pow_pos _), ?_⟩
    have power : (2 : ℚ) ^ exponent = (2 : ℚ) ^ exponent.natAbs := by
      rw [← zpow_natCast]
      congr 1
      omega
    rw [power,Nat.pow_eq]
    push_cast
    field_simp

private theorem log2_bounds {n : ℕ} (nonzero : n ≠ 0) :
    (2 : ℚ) ^ (n.log2 : ℤ) ≤ n ∧ (n : ℚ) < 2 ^ ((n.log2 : ℤ) + 1) := by
  have low := Nat.log2_self_le nonzero
  have high := Nat.lt_log2_self (n := n)
  refine ⟨?_, ?_⟩
  · rw [zpow_natCast]
    exact_mod_cast low
  · rw [← Nat.cast_succ,zpow_natCast]
    exact_mod_cast high

private theorem le_div_iff_le_quotient (bound top : ℕ) {bottom : ℕ} (positive : 0 < bottom) :
    bound ≤ top / bottom ↔ (bound : ℚ) ≤ top / bottom := by
  have solid : (0 : ℚ) < bottom := by exact_mod_cast positive
  rw [Nat.le_div_iff_mul_le positive,le_div_iff₀ solid]
  exact_mod_cast Iff.rfl

/-- The exponent fits: the quotient has at most 53 bits before the point at that scale, and it has 53 of them
unless the exponent is the least one. -/
private theorem quotientExponent_spec {num den : ℕ} (nonzero : num ≠ 0) (positive : 0 < den) :
    leastExponent ≤ quotientExponent num den ∧
      (num / den : ℚ) < 2 ^ (53 + quotientExponent num den) ∧
      (quotientExponent num den = leastExponent ∨ (2 : ℚ) ^ (52 + quotientExponent num den) ≤ num / den) := by
  obtain ⟨numLow, numHigh⟩ := log2_bounds nonzero
  obtain ⟨denLow, denHigh⟩ := log2_bounds positive.ne'
  have solid : (0 : ℚ) < den := by exact_mod_cast positive
  -- the logarithms leave the quotient within two bits
  have low : (2 : ℚ) ^ ((num.log2 : ℤ) - den.log2 - 1) ≤ num / den := by
    rw [le_div_iff₀ solid]
    calc (2 : ℚ) ^ ((num.log2 : ℤ) - den.log2 - 1) * den
        ≤ 2 ^ ((num.log2 : ℤ) - den.log2 - 1) * 2 ^ ((den.log2 : ℤ) + 1) :=
          mul_le_mul_of_nonneg_left denHigh.le (two_zpow_pos _).le
      _ = 2 ^ (num.log2 : ℤ) := by
          rw [← two_zpow_add]
          congr 1
          ring
      _ ≤ num := numLow
  have high : (num / den : ℚ) < 2 ^ ((num.log2 : ℤ) - den.log2 + 1) := by
    rw [div_lt_iff₀ solid]
    calc (num : ℚ) < 2 ^ ((num.log2 : ℤ) + 1) := numHigh
      _ = 2 ^ ((num.log2 : ℤ) - den.log2 + 1) * 2 ^ (den.log2 : ℤ) := by
          rw [← two_zpow_add]
          congr 1
          ring
      _ ≤ 2 ^ ((num.log2 : ℤ) - den.log2 + 1) * den := mul_le_mul_of_nonneg_left denLow (two_zpow_pos _).le
  have guessed : quotientExponent num den =
      let guess := max leastExponent ((num.log2 : ℤ) - den.log2 - 53)
      if Nat.pow 2 53 ≤ (scaled num den guess).1 / (scaled num den guess).2 then guess + 1 else guess := rfl
  rw [guessed]
  dsimp only
  generalize same : max leastExponent ((num.log2 : ℤ) - den.log2 - 53) = guess
  obtain ⟨bottom, quotient⟩ := scaled_spec num positive guess
  have test : Nat.pow 2 53 ≤ (scaled num den guess).1 / (scaled num den guess).2 ↔
      (2 : ℚ) ^ (53 + guess) ≤ num / den := by
    rw [le_div_iff_le_quotient _ _ bottom,quotient,le_div_iff₀ (two_zpow_pos guess),two_zpow_add]
    norm_num
  split
  · rename_i long
    rw [test] at long
    refine ⟨by omega, high.trans_le (two_zpow_le (by omega)), .inr ?_⟩
    convert long using 2
    ring
  · rename_i short
    rw [test,not_le] at short
    refine ⟨by omega, short, ?_⟩
    by_cases least : guess = leastExponent
    · exact .inl least
    · exact .inr ((two_zpow_le (by omega)).trans low)

private theorem roundQuotient_spec (top : ℕ) {bottom : ℕ} (positive : 0 < bottom) :
    (∀ other : ℤ, |(roundQuotient top bottom : ℚ) - top / bottom| ≤ |(other : ℚ) - top / bottom|) ∧
      (2 * |(roundQuotient top bottom : ℚ) - top / bottom| = 1 → Even (roundQuotient top bottom)) := by
  have solid : (0 : ℚ) < bottom := by exact_mod_cast positive
  obtain ⟨whole, known⟩ : ∃ whole, whole = top / bottom := ⟨_, rfl⟩
  obtain ⟨rest, left⟩ : ∃ rest, rest = top % bottom := ⟨_, rfl⟩
  have small : (rest : ℚ) / bottom < 1 := by
    rw [div_lt_one solid,left]
    exact_mod_cast Nat.mod_lt top positive
  have nonneg : (0 : ℚ) ≤ rest / bottom := by positivity
  have split : (top : ℚ) / bottom = whole + rest / bottom := by
    have parts : (top : ℚ) = bottom * whole + rest := by
      rw [known,left]
      exact_mod_cast (Nat.div_add_mod top bottom).symm
    rw [parts]
    field_simp
  have half (twice : ℕ) (same : twice = 2 * rest) :
      (bottom < twice ↔ 1 < 2 * ((rest : ℚ) / bottom)) ∧ (twice = bottom ↔ 2 * ((rest : ℚ) / bottom) = 1) := by
    rw [same,← mul_div_assoc,lt_div_iff₀ solid,div_eq_iff solid.ne',one_mul]
    exact ⟨by exact_mod_cast Iff.rfl, by exact_mod_cast Iff.rfl⟩
  obtain ⟨above, tie⟩ := half _ rfl
  -- every other integer is on one of the two sides
  have apart (other : ℤ) : (rest : ℚ) / bottom ≤ |(other : ℚ) - top / bottom| ∨
      1 - (rest : ℚ) / bottom ≤ |(other : ℚ) - top / bottom| := by
    rw [split]
    rcases le_or_gt other whole with below | beyond
    · have below : (other : ℚ) ≤ whole := by exact_mod_cast below
      exact .inl (le_abs.mpr (.inr (by linarith)))
    · have beyond : (whole : ℚ) + 1 ≤ other := by exact_mod_cast beyond
      exact .inr (le_abs.mpr (.inl (by linarith)))
  have chosen : roundQuotient top bottom =
      if bottom < 2 * rest || (2 * rest = bottom && whole % 2 = 1) then whole + 1 else whole := by
    rw [roundQuotient,known,left]
  rw [chosen,split] at *
  by_cases up : bottom < 2 * rest ∨ 2 * rest = bottom ∧ whole % 2 = 1
  · rw [if_pos (by simpa using up)]
    have distance : |((whole + 1 : ℕ) : ℚ) - (whole + rest / bottom)| = 1 - rest / bottom := by
      rw [Nat.cast_succ,abs_of_nonneg (by linarith)]
      ring
    have most : 1 ≤ 2 * ((rest : ℚ) / bottom) := by
      rcases up with up | ⟨same, _⟩
      · exact (above.mp up).le
      · exact (tie.mp same).ge
    rw [distance]
    refine ⟨fun other => ?_, fun middle => ?_⟩
    · rcases apart other with far | far <;> linarith
    · rcases up with up | ⟨_, odd⟩
      · linarith [above.mp up]
      · exact Nat.even_add_one.mpr (Nat.not_even_iff_odd.mpr (Nat.odd_iff.mpr odd))
  · rw [if_neg (by simpa using up)]
    have distance : |(whole : ℚ) - (whole + rest / bottom)| = rest / bottom := by
      rw [abs_of_nonpos (by linarith)]
      ring
    have least : 2 * ((rest : ℚ) / bottom) ≤ 1 := by
      rw [← not_lt,← above]
      exact fun up' => up (.inl up')
    rw [distance]
    refine ⟨fun other => ?_, fun middle => ?_⟩
    · rcases apart other with far | far <;> linarith
    · rcases Nat.even_or_odd whole with even | odd
      · exact even
      · exact absurd (.inr ⟨tie.mpr middle, Nat.odd_iff.mp odd⟩) up

/-- What rounding makes of a number that is not negative: the nearest number on the grid, and the even one of
two nearest. -/
structure Rounded (value : ℚ) (significand : ℕ) (exponent : ℤ) : Prop where
  small : significand < 2 ^ 53
  least : leastExponent ≤ exponent
  normal : 2 ^ 52 ≤ significand ∨ exponent = leastExponent
  nearest : ∀ other, OnGrid other → |significand * 2 ^ exponent - value| ≤ |other - value|
  even : 2 * |significand * 2 ^ exponent - value| = 2 ^ exponent → Even significand

private theorem distance_scaled (exponent : ℤ) (multiple value : ℚ) :
    |multiple * 2 ^ exponent - value| = 2 ^ exponent * |multiple - value / 2 ^ exponent| := by
  have positive := two_zpow_pos exponent
  rw [← abs_of_pos positive,← abs_mul,abs_of_pos positive]
  congr 1
  field_simp

private theorem nearest_of_unit {value : ℚ} {unit : ℤ} {multiple : ℕ}
    (low : unit = leastExponent ∨ (2 : ℚ) ^ (52 + unit) ≤ value)
    (nearest : ∀ other : ℤ, |(multiple : ℚ) - value / 2 ^ unit| ≤ |(other : ℚ) - value / 2 ^ unit|) {other : ℚ}
    (grid : OnGrid other) : |multiple * 2 ^ unit - value| ≤ |other - value| := by
  obtain ⟨significand, exponent, small, least, rfl⟩ := grid
  have scale (factor : ℤ) : |(multiple : ℚ) * 2 ^ unit - value| ≤ |factor * 2 ^ unit - value| := by
    rw [distance_scaled,distance_scaled]
    exact mul_le_mul_of_nonneg_left (nearest factor) (two_zpow_pos unit).le
  rcases le_or_gt unit exponent with above | below
  · -- a number of a greater unit is a multiple of this one
    obtain ⟨more, rfl⟩ := Int.le.dest above
    have same : (significand : ℚ) * 2 ^ (unit + (more : ℤ)) = (significand * 2 ^ more : ℤ) * 2 ^ unit := by
      rw [two_zpow_add,zpow_natCast]
      push_cast
      ring
    rw [same]
    exact scale _
  · -- a number of a smaller unit is farther away than the least one of 53 bits
    have bits : (2 : ℚ) ^ (52 + unit) ≤ value := low.resolve_left (by omega)
    have bounded : (significand : ℚ) * 2 ^ exponent ≤ 2 ^ (52 + unit) := by
      calc (significand : ℚ) * 2 ^ exponent ≤ 2 ^ 53 * 2 ^ exponent := by
            refine mul_le_mul_of_nonneg_right ?_ (two_zpow_pos exponent).le
            exact_mod_cast (abs_le.mp small).2
        _ ≤ 2 ^ 53 * 2 ^ (unit - 1) := mul_le_mul_of_nonneg_left (two_zpow_le (by omega)) (by norm_num)
        _ = 2 ^ (52 + unit) := by
            rw [← zpow_natCast,← two_zpow_add]
            congr 1
            push_cast
            ring
    have power : ((2 ^ 52 : ℤ) : ℚ) * 2 ^ unit = 2 ^ (52 + unit) := by
      rw [two_zpow_add]
      norm_num
    calc |(multiple : ℚ) * 2 ^ unit - value| ≤ |(2 ^ 52 : ℤ) * 2 ^ unit - value| := scale _
      _ = value - 2 ^ (52 + unit) := by
          rw [power,abs_of_nonpos (by linarith)]
          ring
      _ ≤ |significand * 2 ^ exponent - value| := le_abs.mpr (.inr (by linarith))

private theorem rounded_of_unit {value : ℚ} {unit : ℤ} {multiple : ℕ} (least : leastExponent ≤ unit)
    (high : value < 2 ^ (53 + unit)) (low : unit = leastExponent ∨ (2 : ℚ) ^ (52 + unit) ≤ value)
    (nearest : ∀ other : ℤ, |(multiple : ℚ) - value / 2 ^ unit| ≤ |(other : ℚ) - value / 2 ^ unit|)
    (even : 2 * |(multiple : ℚ) - value / 2 ^ unit| = 1 → Even multiple) :
    Rounded value (if multiple = 2 ^ 53 then 2 ^ 52 else multiple)
      (if multiple = 2 ^ 53 then unit + 1 else unit) := by
  have positive := two_zpow_pos unit
  have closest {other : ℚ} (grid : OnGrid other) : |multiple * 2 ^ unit - value| ≤ |other - value| :=
    nearest_of_unit low nearest grid
  split
  · rename_i full
    have same : ((2 ^ 52 : ℕ) : ℚ) * 2 ^ (unit + 1) = multiple * 2 ^ unit := by
      rw [full,two_zpow_add]
      norm_num
      ring
    exact ⟨by norm_num, by omega, .inl le_rfl, fun _ grid => same ▸ closest grid, fun _ => by decide⟩
  · rename_i partly
    have scaledHigh : value / 2 ^ unit < 2 ^ 53 := by
      rw [div_lt_iff₀ positive]
      rwa [two_zpow_add] at high
    have most : multiple ≤ 2 ^ 53 := by
      have close := nearest (2 ^ 53)
      rw [Int.cast_pow,Int.cast_ofNat,abs_of_pos (a := 2 ^ 53 - value / 2 ^ unit) (by linarith)] at close
      have bound : (multiple : ℚ) ≤ 2 ^ 53 := by linarith [le_abs_self ((multiple : ℚ) - value / 2 ^ unit)]
      exact_mod_cast bound
    refine ⟨lt_of_le_of_ne most partly, least, ?_, fun _ grid => closest grid, fun middle => even ?_⟩
    · refine low.symm.imp_left fun bits => ?_
      have scaledLow : 2 ^ 52 ≤ value / 2 ^ unit := by
        rw [le_div_iff₀ positive]
        rwa [two_zpow_add] at bits
      have close := nearest (2 ^ 52)
      rw [Int.cast_pow,Int.cast_ofNat,abs_of_nonpos (a := 2 ^ 52 - value / 2 ^ unit) (by linarith)] at close
      have bound : (2 : ℚ) ^ 52 ≤ multiple := by linarith [neg_abs_le ((multiple : ℚ) - value / 2 ^ unit)]
      exact_mod_cast bound
    · rw [distance_scaled] at middle
      have cancelled : 2 ^ unit * (2 * |(multiple : ℚ) - value / 2 ^ unit|) = 2 ^ unit * 1 := by linarith
      exact mul_left_cancel₀ positive.ne' cancelled

private theorem round_spec (negative : Bool) (num : ℕ) {den : ℕ} (positive : 0 < den) :
    ∃ significand exponent, Rounded (num / den) significand exponent ∧
      round negative num den =
        if greatestExponent < exponent then .infinite negative else .finite negative significand exponent := by
  by_cases zero : num = 0
  · subst zero
    refine ⟨0, leastExponent, ⟨by norm_num, le_rfl, .inr rfl, fun other _ => ?_, fun _ => Even.zero⟩, rfl⟩
    simp
  · obtain ⟨least, high, low⟩ := quotientExponent_spec zero positive
    obtain ⟨bottom, quotient⟩ := scaled_spec num positive (quotientExponent num den)
    obtain ⟨nearest, even⟩ := roundQuotient_spec (scaled num den (quotientExponent num den)).1 bottom
    rw [quotient] at nearest even
    refine ⟨_, _, rounded_of_unit least high low nearest even, ?_⟩
    rw [round,if_neg zero]
    simp only [Nat.pow_eq]
    split <;> rfl

/-- The middle between the greatest finite number and `2 ^ 1024`. -/
def overflowBound : ℚ := (2 ^ 54 - 1) * 2 ^ (970 : ℤ)

theorem two_zpow_succ (exponent : ℤ) : (2 : ℚ) ^ (exponent + 1) = 2 * 2 ^ exponent := by
  rw [two_zpow_add,zpow_one,mul_comm]

/-- Half the unit of the greatest finite numbers. -/
theorem exists_half : ∃ half : ℚ, 0 < half ∧ 2 ^ greatestExponent = 2 * half ∧
    overflowBound = (2 ^ 54 - 1) * half ∧ ∀ exponent < greatestExponent, 2 ^ exponent ≤ half :=
  ⟨2 ^ (970 : ℤ), two_zpow_pos _, two_zpow_succ 970, rfl, fun _ below => two_zpow_le (Int.le_of_lt_add_one below)⟩

/-- A number that is rounded to a finite one is below the middle between the greatest finite number and the
power of two behind it: a tie there goes to the power. -/
private theorem Rounded.lt_overflowBound {value : ℚ} {significand : ℕ} {exponent : ℤ}
    (rounded : Rounded value significand exponent) (fits : exponent ≤ greatestExponent) :
    value < overflowBound := by
  obtain ⟨half, positive, unit, bound, lower⟩ := exists_half
  have small : (significand : ℚ) ≤ 2 ^ 53 - 1 := by
    have bound : significand + 1 ≤ 2 ^ 53 := rounded.small
    rw [le_sub_iff_add_le]
    exact_mod_cast bound
  by_contra large
  rw [not_lt,bound] at large
  have near := rounded.nearest _ ⟨2 ^ 53, greatestExponent, by norm_num, by decide, rfl⟩
  have most : (significand : ℚ) * 2 ^ exponent ≤ (2 ^ 53 - 1) * 2 ^ greatestExponent :=
    mul_le_mul small (two_zpow_le fits) (two_zpow_pos _).le (by norm_num)
  rw [Int.cast_pow,Int.cast_ofNat] at near
  rw [unit] at near most
  rw [abs_of_nonpos (by linarith)] at near
  have tie : significand * 2 ^ exponent = (2 ^ 53 - 1) * (2 * half) ∧ value = (2 ^ 54 - 1) * half := by
    rcases le_total value (2 ^ 53 * (2 * half)) with below | above
    · rw [abs_of_nonneg (by linarith)] at near
      constructor <;> linarith
    · rw [abs_of_nonpos (by linarith)] at near
      constructor <;> linarith
  obtain ⟨same, middle⟩ := tie
  -- only the greatest finite number is that near, and its significand is odd
  have top : exponent = greatestExponent := by
    by_contra different
    have product : (significand : ℚ) * 2 ^ exponent ≤ (2 ^ 53 - 1) * half :=
      mul_le_mul small (lower exponent (lt_of_le_of_ne fits different)) (two_zpow_pos _).le (by norm_num)
    linarith
  subst top
  rw [unit] at same
  have odd : (significand : ℚ) = (2 ^ 53 - 1 : ℕ) := by
    rw [mul_right_cancel₀ (by positivity) same]
    norm_num
  have even := rounded.even (by
    rw [unit,same,middle,abs_of_nonpos (by linarith)]
    ring)
  rw [Nat.cast_injective odd] at even
  exact absurd even (by decide)

private theorem Rounded.exponent_le {value : ℚ} {significand : ℕ} {exponent : ℤ}
    (rounded : Rounded value significand exponent) (small : value < overflowBound) :
    exponent ≤ greatestExponent := by
  obtain ⟨half, positive, unit, bound, -⟩ := exists_half
  by_contra large
  rw [not_le] at large
  rw [bound] at small
  have bits : (2 : ℚ) ^ 52 ≤ significand := by
    have order : leastExponent < greatestExponent := by decide
    have normal := rounded.normal.resolve_right (by omega)
    exact_mod_cast normal
  have least : (2 : ℚ) ^ 52 * (2 * 2 ^ greatestExponent) ≤ significand * 2 ^ exponent := by
    rw [← two_zpow_succ]
    exact mul_le_mul bits (two_zpow_le large) (two_zpow_pos _).le (Nat.cast_nonneg _)
  have near := rounded.nearest _ ⟨2 ^ 53 - 1, greatestExponent, by norm_num, by decide, rfl⟩
  rw [Int.cast_sub,Int.cast_pow,Int.cast_ofNat,Int.cast_one] at near
  rw [unit] at near least
  rw [abs_of_nonneg (by linarith)] at near
  rcases le_total value ((2 ^ 53 - 1) * (2 * half)) with below | above
  · rw [abs_of_nonneg (by linarith)] at near
    linarith
  · rw [abs_of_nonpos (by linarith)] at near
    linarith

theorem OnGrid.neg {value : ℚ} (grid : OnGrid value) : OnGrid (-value) := by
  obtain ⟨significand, exponent, small, least, rfl⟩ := grid
  exact ⟨-significand, exponent, by rwa [abs_neg], least, by push_cast; ring⟩

theorem OnGrid.sign_mul {value : ℚ} (grid : OnGrid value) (negative : Bool) : OnGrid (sign negative * value) := by
  cases negative with
  | false => rwa [sign,if_neg Bool.false_ne_true,one_mul]
  | true =>
    rw [sign,if_pos rfl,neg_one_mul]
    exact grid.neg

/-- Integers of at most 53 bits, and the power of two behind them, are on the grid. -/
theorem onGrid_int {n : ℤ} (small : |n| ≤ 2 ^ 53) : OnGrid n := ⟨n, 0, small, by decide, by simp⟩

/-- A finite number that is the rounding of a rational number. -/
structure RoundingOf (value : ℚ) (x : Binary64) : Prop where
  normalized : x.Normalized
  nearest : ∀ other, OnGrid other → |x.toRat - value| ≤ |other - value|

namespace RoundingOf

variable {value other : ℚ} {x : Binary64} (rounding : RoundingOf value x)
include rounding

/-- Rounding does not go below a number on the grid. -/
theorem le_of_le (grid : OnGrid other) (le : other ≤ value) : other ≤ x.toRat := by
  have near := rounding.nearest other grid
  rw [abs_of_nonpos (a := other - value) (by linarith)] at near
  linarith [neg_abs_le (x.toRat - value)]

/-- Rounding does not go beyond a number on the grid. -/
theorem ge_of_ge (grid : OnGrid other) (ge : value ≤ other) : x.toRat ≤ other := by
  have near := rounding.nearest other grid
  rw [abs_of_nonneg (a := other - value) (by linarith)] at near
  linarith [le_abs_self (x.toRat - value)]

theorem eq_of_onGrid (grid : OnGrid value) : x.toRat = value :=
  le_antisymm (rounding.ge_of_ge grid le_rfl) (rounding.le_of_le grid le_rfl)

end RoundingOf

private theorem round_of_lt (negative : Bool) (num : ℕ) {den : ℕ} (positive : 0 < den)
    (small : (num / den : ℚ) < overflowBound) :
    RoundingOf (sign negative * (num / den)) (round negative num den) := by
  obtain ⟨significand, exponent, rounded, same⟩ := round_spec negative num positive
  have fits := rounded.exponent_le small
  rw [same,if_neg (not_lt.mpr fits)]
  refine ⟨⟨rounded.small, rounded.least, fits, rounded.normal⟩, fun other grid => ?_⟩
  cases negative with
  | false =>
    simpa [toRat,sign] using rounded.nearest other grid
  | true =>
    have near := rounded.nearest (-other) grid.neg
    rw [← abs_neg (-other - _)] at near
    rw [← abs_neg]
    convert near using 2 <;> simp only [toRat,sign,if_true] <;> ring

private theorem round_of_le (negative : Bool) (num : ℕ) {den : ℕ} (positive : 0 < den)
    (large : overflowBound ≤ (num / den : ℚ)) : round negative num den = .infinite negative := by
  obtain ⟨significand, exponent, rounded, same⟩ := round_spec negative num positive
  rw [same,if_pos]
  by_contra fits
  exact absurd (rounded.lt_overflowBound (not_lt.mp fits)) (not_lt.mpr large)

theorem roundScaled_of_lt (negative : Bool) (magnitude : ℕ) (exponent : ℤ)
    (small : (magnitude * 2 ^ exponent : ℚ) < overflowBound) :
    RoundingOf (sign negative * (magnitude * 2 ^ exponent)) (roundScaled negative magnitude exponent) := by
  rw [roundScaled,Nat.pow_eq]
  split
  · rename_i below
    have same : (magnitude / (2 ^ exponent.natAbs : ℕ) : ℚ) = magnitude * 2 ^ exponent := by
      rw [div_eq_mul_inv,Nat.cast_pow,Nat.cast_ofNat,← zpow_natCast,← zpow_neg]
      congr 2
      omega
    rw [← same] at small ⊢
    exact round_of_lt negative magnitude (Nat.two_pow_pos _) small
  · rename_i above
    have same : ((magnitude * 2 ^ exponent.natAbs : ℕ) / (1 : ℕ) : ℚ) = magnitude * 2 ^ exponent := by
      rw [Nat.cast_one,div_one,Nat.cast_mul,Nat.cast_pow,Nat.cast_ofNat,← zpow_natCast]
      congr 2
      omega
    rw [← same] at small ⊢
    exact round_of_lt negative _ one_pos small

theorem sign_mul_natAbs (n : ℤ) : sign (n < 0) * (n.natAbs : ℚ) = n := by
  rcases lt_or_ge n 0 with negative | nonneg
  · rw [sign,if_pos (by simpa using negative),Nat.cast_natAbs,abs_of_neg negative]
    push_cast
    ring
  · rw [sign,if_neg (by simpa using nonneg),Nat.cast_natAbs,abs_of_nonneg nonneg,one_mul]

theorem ofInt_of_lt {n : ℤ} (small : |(n : ℚ)| < overflowBound) : RoundingOf n (ofInt n) := by
  have rounding := round_of_lt (n < 0) n.natAbs one_pos (by simpa [Nat.cast_natAbs] using small)
  rwa [Nat.cast_one,div_one,sign_mul_natAbs] at rounding

theorem ofInt_of_le {n : ℤ} (large : overflowBound ≤ |(n : ℚ)|) : ofInt n = .infinite (n < 0) :=
  round_of_le (n < 0) n.natAbs one_pos (by simpa [Nat.cast_natAbs] using large)

end Inyandiko.Binary64
