import Inyandiko.Binary64.Decimal
import Inyandiko.Crash

/-! Numbers of scripts: integers of any size and double-precision numbers. Arithmetic on two
integers is exact except for quotients and remainders; an integer that meets a floating-point
number is rounded to one first. A result with an integral value is an integer. -/
namespace Inyandiko

inductive Number
  | int (value : Int)
  | float (value : Binary64)
  deriving DecidableEq, Repr, Inhabited

namespace Number

def toFloat : Number → Except Crash Binary64
  | .int n => match Binary64.ofInt n with
    | .infinite _ => .error .integerTooLarge
    | x => .ok x
  | .float x => .ok x

/-- The integer in place of a floating-point number that equals one. -/
def normalize : Number → Number
  | .float x => match x.toInt? with
    | some n => .int n
    | none => .float x
  | n => n

def floatOp (op : Binary64 → Binary64 → Binary64) (x y : Number) : Except Crash Number := do
  let a ← x.toFloat
  let b ← y.toFloat
  return .float (op a b)

def add : Number → Number → Except Crash Number
  | .int a, .int b => .ok (.int (a + b))
  | x, y => floatOp Binary64.add x y

def sub : Number → Number → Except Crash Number
  | .int a, .int b => .ok (.int (a - b))
  | x, y => floatOp Binary64.sub x y

def mul : Number → Number → Except Crash Number
  | .int a, .int b => .ok (.int (a * b))
  | x, y => floatOp Binary64.mul x y

/-- The quotient; that of two integers is rounded once. -/
def div : Number → Number → Except Crash Number
  | .int a, .int b =>
    match Binary64.round (decide (a < 0) != decide (b < 0)) a.natAbs b.natAbs with
    | .infinite _ => .error .quotientTooLarge
    | x => .ok (.float x)
  | x, y => floatOp Binary64.div x y

/-- The remainder toward zero of the operands as floating-point numbers. -/
def rem (x y : Number) : Except Crash Number := do
  let a ← x.toFloat
  let b ← y.toFloat
  match a, b with
  | .infinite _, .nan => return .float .nan
  | .infinite _, _ => throw .remainderOfInfinity
  | a, b => return .float (a.rem b)

def neg : Number → Number
  | .int n => .int (-n)
  | .float x => .float x.neg

/-- The exact order; `none` when one of them is not a number. -/
def compare? : Number → Number → Option Ordering
  | .int a, .int b => some (compare a b)
  | .float x, .float y => x.compare? y
  | .float x, .int n => x.compareInt? n
  | .int n, .float x => (x.compareInt? n).map Ordering.swap

/-- Equality of values, whatever the representation. -/
def equals (x y : Number) : Bool := x.compare? y = some .eq

def isZero : Number → Bool
  | .int n => n = 0
  | .float x => x.isZero

/-- Whether a number is neither infinite nor undefined. Integers beyond the floating-point
numbers have no answer. -/
def isFinite (x : Number) : Except Crash Bool := do
  let a ← x.toFloat
  return a.isFinite

/-- Whether an integer has too many decimal digits to be written. The bound is too large a number to
be computed in proofs. -/
@[irreducible]
def isLong (n : Int) : Bool := Nat.pow 10 digitLimit ≤ n.natAbs

def writeInt (n : Int) : Except Crash (List Char) :=
  if isLong n then .error .longInteger
  else .ok (if n < 0 then '-' :: Nat.toDigits 10 n.natAbs else Nat.toDigits 10 n.natAbs)

def write : Number → Except Crash (List Char)
  | .int n => writeInt n
  | .float x => .ok x.write

def truncate : Number → Except Crash Int
  | .int n => .ok n
  | .float .nan => .error .nanToInteger
  | .float x => match x.truncate? with
    | some n => .ok n
    | none => .error .infinityToInteger

end Number

end Inyandiko
