import Inyandiko.Binary64.Decimal
import Inyandiko.Crash
import Inyandiko.Text.Digit

/-! Reading numbers from text. Blanks around a numeral are ignored, the information separators
apart; it may have a sign, its digits may be of any script, and single underscores may stand
between digits. -/
namespace Inyandiko.Numeral

open Text

/-- Whether a character may stand around a numeral: a blank that is no information separator. -/
def isMargin (c : Char) : Bool := isBlank c && !(0x1c ≤ c.toNat && c.toNat ≤ 0x1f)

def withoutMargins (text : Chars) : Chars :=
  ((text.dropWhile isMargin).reverse.dropWhile isMargin).reverse

/-- Digits with single underscores between them, and the text after them. The result is
`none` when an underscore has no digit before or after it. `started` tells whether a digit
stands right before. -/
def digitRun (started : Bool) : Chars → Option (List Nat × Chars)
  | [] => if started then some ([], []) else none
  | c :: rest =>
    match decimalValue? c with
    | some digit => (digitRun true rest).map fun (digits, after) => (digit :: digits, after)
    | none =>
      if c = '_' && started then digitRun false rest
      else if started then some ([], c :: rest)
      else none

/-- A sign at the start of a text, true for minus, and the text after it. -/
def sign : Chars → Bool × Chars
  | '-' :: rest => (true, rest)
  | '+' :: rest => (false, rest)
  | text => (false, text)

/-- Reads an integer. A numeral with too many digits is refused even when something else
follows it. -/
def readInt (text : String) : Except Crash Int :=
  let (negative, body) := sign (withoutMargins text.toList)
  match digitRun false body with
  | none => .error (.badInteger text)
  | some (digits, after) =>
    if digitLimit < digits.length then .error (.longNumeral digits.length)
    else if after ≠ [] then .error (.badInteger text)
    else
      let magnitude : Int := digitsValue digits
      .ok (if negative then -magnitude else magnitude)

def optionalDigits (text : Chars) : Option (List Nat × Chars) :=
  match text with
  | c :: _ => if isDecimal c then digitRun false text else some ([], text)
  | [] => some ([], [])

def exponent : Chars → Option Int
  | [] => some 0
  | c :: rest =>
    if c = 'e' || c = 'E' then
      let (negative, body) := sign rest
      match digitRun false body with
      | some (digits, []) =>
        let magnitude : Int := digitsValue digits
        some (if negative then -magnitude else magnitude)
      | _ => none
    else none

def decimal? (negative : Bool) (text : Chars) : Option Binary64 := do
  let (whole, rest) ← optionalDigits text
  let (fraction, rest) ←
    match rest with
    | '.' :: rest => optionalDigits rest
    | rest => some ([], rest)
  if whole.isEmpty && fraction.isEmpty then none
  else
    let power ← exponent rest
    some (Binary64.ofDecimal negative (digitsValue (whole ++ fraction)) (power - fraction.length))

def lower (text : Chars) : Chars := text.map Char.toLower

/-- Reads a floating-point number: a decimal numeral or one of the names of infinity and of
what is not a number. -/
def readFloat (text : String) : Except Crash Binary64 :=
  let (negative, body) := sign (withoutMargins text.toList)
  if lower body = "nan".toList then .ok .nan
  else if lower body = "inf".toList || lower body = "infinity".toList then .ok (.infinite negative)
  else match decimal? negative body with
    | some x => .ok x
    | none => .error (.badFloat text)

end Inyandiko.Numeral
