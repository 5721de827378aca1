import Inyandiko.Binary64

/-! Decimal numerals of double-precision numbers: the number nearest to a numeral, and the
shortest digits that read back. The reals that round to a number form an interval around it,
whose ends belong to it when its significand is even; of the numerals with the fewest
significant digits in the interval the one nearest to the number is taken. -/
namespace Inyandiko.Binary64

/-- A numeral has a magnitude below the least number when its first digit stands this far right. -/
def leastDecimal : Int := -330

/-- A numeral has a magnitude above the greatest number when its first digit stands this far left. -/
def greatestDecimal : Int := 310

def ofDecimal (negative : Bool) (digits : Nat) (exponent : Int) : Binary64 :=
  if digits = 0 then zero negative
  else
    let first := exponent + (Nat.toDigits 10 digits).length
    if first < leastDecimal then zero negative
    else if greatestDecimal < first then .infinite negative
    else if exponent < 0 then round negative digits (Nat.pow 10 exponent.natAbs)
    else round negative (digits * Nat.pow 10 exponent.natAbs) 1

/-- The reals that round to `significand * 2 ^ exponent`, over a common denominator: the lower
end, the number itself, the upper end, the denominator, and whether the ends belong to it. -/
structure Interval where
  low : Nat
  mid : Nat
  high : Nat
  den : Nat
  closed : Bool
  deriving Repr

/-- The rounding interval of a positive number. Below a power of two the neighbour is nearer. -/
def interval (significand : Nat) (exponent : Int) : Interval :=
  let gap := if significand = Nat.pow 2 52 && leastExponent < exponent then 1 else 2
  let (factor, den) := scaled 1 4 (-exponent)
  { low := (4 * significand - gap) * factor
    mid := 4 * significand * factor
    high := (4 * significand + 2) * factor
    den
    closed := significand % 2 = 0 }

def Interval.contains (range : Interval) (num den : Nat) : Bool :=
  let low := range.low * den
  let high := range.high * den
  let value := num * range.den
  if range.closed then low ≤ value && value ≤ high else low < value && value < high

def leadingPower (num den : Nat) : Int :=
  let guess : Int := (Nat.toDigits 10 num).length - (Nat.toDigits 10 den).length
  let reaches (power : Int) : Bool :=
    if power < 0 then den ≤ num * Nat.pow 10 power.natAbs else den * Nat.pow 10 power.natAbs ≤ num
  if reaches guess then guess else guess - 1

structure Numeral where
  digits : Nat
  exponent : Int
  deriving DecidableEq, Repr

def Numeral.ratio (numeral : Numeral) : Nat × Nat :=
  if numeral.exponent < 0 then (numeral.digits, Nat.pow 10 numeral.exponent.natAbs)
  else (numeral.digits * Nat.pow 10 numeral.exponent.natAbs, 1)

/-- The numeral in the interval on the grid of a power of ten that is nearest to the number;
of two equally near ones the one with an even last digit. -/
def Interval.onGrid (range : Interval) (exponent : Int) : Option Numeral :=
  let (num, den) :=
    if exponent < 0 then (range.mid * Nat.pow 10 exponent.natAbs, range.den)
    else (range.mid, range.den * Nat.pow 10 exponent.natAbs)
  let below := num / den
  let fits (digits : Nat) : Bool :=
    let (top, bottom) := Numeral.ratio ⟨digits, exponent⟩
    digits != 0 && range.contains top bottom
  let nearest := roundQuotient num den
  if fits nearest then some ⟨nearest, exponent⟩
  else if fits below then some ⟨below, exponent⟩
  else if fits (below + 1) then some ⟨below + 1, exponent⟩
  else none

/-- The first hit among the grids that leave one digit, two digits, and so on. -/
def Interval.firstHit (range : Interval) (power : Int) : Nat → Nat → Option Numeral
  | 0, _ => none
  | more + 1, count =>
    match range.onGrid (power - count) with
    | some numeral => some numeral
    | none => range.firstHit power more (count + 1)

/-- The shortest numeral that reads back as `significand * 2 ^ exponent`. Seventeen digits
always suffice. -/
def shortest (significand : Nat) (exponent : Int) : Numeral :=
  let range := interval significand exponent
  let power := leadingPower range.mid range.den
  (range.firstHit power 18 0).getD ⟨0, 0⟩

/-- The layout of a written number: the powers of ten of the first digit that are written
positionally, from the least up to below the end, and the least number of exponent digits. -/
structure Layout where
  positionalFrom : Int
  positionalBelow : Int
  exponentDigits : Nat

def layout : Layout := ⟨-4, 16, 2⟩

def dropTrailingZeros (digits : List Char) : List Char :=
  (digits.reverse.dropWhile (· = '0')).reverse

/-- Writes significant digits whose first one stands for the given power of ten. -/
def writeDigits (digits : List Char) (power : Int) : List Char :=
  if power < layout.positionalFrom || layout.positionalBelow ≤ power then
    let fraction := digits.drop 1
    let exponent := Nat.toDigits 10 power.natAbs
    digits.take 1 ++ (if fraction.isEmpty then [] else '.' :: fraction) ++
      ['e', if power < 0 then '-' else '+'] ++
      List.replicate (layout.exponentDigits - exponent.length) '0' ++ exponent
  else if power < 0 then
    '0' :: '.' :: List.replicate (power.natAbs - 1) '0' ++ digits
  else
    let whole := power.natAbs + 1
    let padded := digits ++ List.replicate (whole - digits.length) '0'
    let fraction := padded.drop whole
    padded.take whole ++ '.' :: (if fraction.isEmpty then ['0'] else fraction)

def write : Binary64 → List Char
  | .nan => ['n', 'a', 'n']
  | .infinite negative => if negative then ['-', 'i', 'n', 'f'] else ['i', 'n', 'f']
  | .finite negative significand exponent =>
    let body :=
      if significand = 0 then ['0', '.', '0']
      else
        let numeral := shortest significand exponent
        let digits := Nat.toDigits 10 numeral.digits
        writeDigits (dropTrailingZeros digits) (numeral.exponent + digits.length - 1)
    if negative then '-' :: body else body

end Inyandiko.Binary64
