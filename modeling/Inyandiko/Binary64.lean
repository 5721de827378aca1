/-! Binary floating-point numbers of double precision. A finite number is a sign, a
significand below `2 ^ 53` and a power of two between `2 ^ -1074` and `2 ^ 971`; every
result is the exact one, rounded once to the nearest such number, a tie going to the even
significand and too large a magnitude to infinity. -/
namespace Inyandiko

/-- A double-precision number; `finite` stands for `significand * 2 ^ exponent`. -/
inductive Binary64
  | finite (negative : Bool) (significand : Nat) (exponent : Int)
  | infinite (negative : Bool)
  | nan
  deriving DecidableEq, Repr, Inhabited

namespace Binary64

def leastExponent : Int := -1074

def greatestExponent : Int := 971

def zero (negative : Bool) : Binary64 := .finite negative 0 leastExponent

/-- The quotient `num / (den * 2 ^ exponent)` as a numerator and a denominator. -/
def scaled (num den : Nat) (exponent : Int) : Nat × Nat :=
  if exponent < 0 then (num * Nat.pow 2 exponent.natAbs, den) else (num, den * Nat.pow 2 exponent.natAbs)

/-- The nearest integer to a quotient, a tie going to the even one. -/
def roundQuotient (num den : Nat) : Nat :=
  let whole := num / den
  let twice := 2 * (num % den)
  if den < twice || (twice = den && whole % 2 = 1) then whole + 1 else whole

/-- The exponent at which a positive quotient has a significand of 53 bits, or the least one. -/
def quotientExponent (num den : Nat) : Int :=
  let guess := max leastExponent ((num.log2 : Int) - den.log2 - 53)
  let (top, bottom) := scaled num den guess
  if Nat.pow 2 53 ≤ top / bottom then guess + 1 else guess

def round (negative : Bool) (num den : Nat) : Binary64 :=
  if num = 0 then zero negative
  else
    let exponent := quotientExponent num den
    let (top, bottom) := scaled num den exponent
    let significand := roundQuotient top bottom
    let (significand, exponent) :=
      if significand = Nat.pow 2 53 then (Nat.pow 2 52, exponent + 1) else (significand, exponent)
    if greatestExponent < exponent then .infinite negative else .finite negative significand exponent

def roundScaled (negative : Bool) (magnitude : Nat) (exponent : Int) : Binary64 :=
  if exponent < 0 then round negative magnitude (Nat.pow 2 exponent.natAbs)
  else round negative (magnitude * Nat.pow 2 exponent.natAbs) 1

def ofInt (n : Int) : Binary64 := round (n < 0) n.natAbs 1

def isNaN : Binary64 → Bool
  | .nan => true
  | _ => false

def isFinite : Binary64 → Bool
  | .finite .. => true
  | _ => false

def isZero : Binary64 → Bool
  | .finite _ significand _ => significand = 0
  | _ => false

/-- A finite number as a signed multiple of `2 ^ exponent`, for an exponent not above its own. -/
def mantissaAt (negative : Bool) (significand : Nat) (own exponent : Int) : Int :=
  let magnitude : Int := significand * Nat.pow 2 (own - exponent).natAbs
  if negative then -magnitude else magnitude

def neg : Binary64 → Binary64
  | .finite negative significand exponent => .finite (!negative) significand exponent
  | .infinite negative => .infinite (!negative)
  | .nan => .nan

/-- The rounded sum. Opposite numbers add to positive zero. -/
def add : Binary64 → Binary64 → Binary64
  | .finite n₁ m₁ e₁, .finite n₂ m₂ e₂ =>
    let exponent := min e₁ e₂
    let total := mantissaAt n₁ m₁ e₁ exponent + mantissaAt n₂ m₂ e₂ exponent
    if total = 0 then zero (n₁ && n₂) else roundScaled (total < 0) total.natAbs exponent
  | .nan, _ => .nan
  | _, .nan => .nan
  | .infinite n₁, .infinite n₂ => if n₁ = n₂ then .infinite n₁ else .nan
  | .infinite n, _ => .infinite n
  | _, .infinite n => .infinite n

def sub (x y : Binary64) : Binary64 := x.add y.neg

def mul : Binary64 → Binary64 → Binary64
  | .finite n₁ m₁ e₁, .finite n₂ m₂ e₂ => roundScaled (n₁ != n₂) (m₁ * m₂) (e₁ + e₂)
  | .nan, _ => .nan
  | _, .nan => .nan
  | .infinite n₁, .infinite n₂ => .infinite (n₁ != n₂)
  | .infinite n₁, .finite n₂ m₂ _ => if m₂ = 0 then .nan else .infinite (n₁ != n₂)
  | .finite n₁ m₁ _, .infinite n₂ => if m₁ = 0 then .nan else .infinite (n₁ != n₂)

def div : Binary64 → Binary64 → Binary64
  | .finite n₁ m₁ e₁, .finite n₂ m₂ e₂ =>
    if m₂ = 0 then (if m₁ = 0 then .nan else .infinite (n₁ != n₂))
    else
      let (num, den) := scaled m₁ m₂ (e₂ - e₁)
      round (n₁ != n₂) num den
  | .nan, _ => .nan
  | _, .nan => .nan
  | .infinite _, .infinite _ => .nan
  | .infinite n₁, .finite n₂ _ _ => .infinite (n₁ != n₂)
  | .finite n₁ _ _, .infinite n₂ => zero (n₁ != n₂)

/-- The remainder of the division truncated toward zero, which is exact and has the sign of
the dividend. There is none for an infinite dividend or a zero divisor. -/
def rem : Binary64 → Binary64 → Binary64
  | .finite n₁ m₁ e₁, .finite _ m₂ e₂ =>
    if m₂ = 0 then .nan
    else
      let exponent := min e₁ e₂
      let dividend := m₁ * Nat.pow 2 (e₁ - exponent).natAbs
      let divisor := m₂ * Nat.pow 2 (e₂ - exponent).natAbs
      roundScaled n₁ (dividend % divisor) exponent
  | .finite n m e, .infinite _ => .finite n m e
  | _, _ => .nan

/-- The order of two numbers; `none` when one of them is not a number. -/
def compare? : Binary64 → Binary64 → Option Ordering
  | .finite n₁ m₁ e₁, .finite n₂ m₂ e₂ =>
    let exponent := min e₁ e₂
    some (compare (mantissaAt n₁ m₁ e₁ exponent) (mantissaAt n₂ m₂ e₂ exponent))
  | .nan, _ => none
  | _, .nan => none
  | .infinite n₁, .infinite n₂ => some (if n₁ = n₂ then .eq else if n₁ then .lt else .gt)
  | .infinite n, _ => some (if n then .lt else .gt)
  | _, .infinite n => some (if n then .gt else .lt)

def compareInt? : Binary64 → Int → Option Ordering
  | .finite negative significand exponent, n =>
    if exponent < 0 then
      some (compare (mantissaAt negative significand 0 0) (n * Nat.pow 2 exponent.natAbs))
    else some (compare (mantissaAt negative significand exponent 0) n)
  | .infinite negative, _ => some (if negative then .lt else .gt)
  | .nan, _ => none

def floor? : Binary64 → Option Int
  | .finite negative significand exponent =>
    if exponent < 0 then
      some (Int.fdiv (mantissaAt negative significand 0 0) (Nat.pow 2 exponent.natAbs))
    else some (mantissaAt negative significand exponent 0)
  | _ => none

def toInt? (x : Binary64) : Option Int :=
  x.floor?.filter fun n => x.compareInt? n = some .eq

def truncate? (x : Binary64) : Option Int :=
  match x with
  | .finite true .. => x.neg.floor?.map (- ·)
  | _ => x.floor?

end Binary64

end Inyandiko
