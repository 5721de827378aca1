import Inyandiko.Text.Quoted

/-! Decoding of UTF-8. Bytes that are no text are refused at the first sequence that is not
well-formed, with its place and what is wrong with it. -/
namespace Inyandiko.Text.Utf8

inductive Flaw
  | badStart
  | badContinuation
  | cutOff
  deriving DecidableEq, Repr

def Flaw.message : Flaw → String
  | .badStart => "invalid start byte"
  | .badContinuation => "invalid continuation byte"
  | .cutOff => "unexpected end of data"

structure Refusal where
  position : Nat
  bytes : List UInt8
  flaw : Flaw
  deriving DecidableEq, Repr

def Refusal.message (refusal : Refusal) : String :=
  match refusal.bytes with
  | [byte] =>
    let shown := String.ofList (hex 2 byte.toNat)
    s!"'utf-8' codec can't decode byte 0x{shown} in position {refusal.position}: {refusal.flaw.message}"
  | bytes =>
    let last := refusal.position + bytes.length - 1
    s!"'utf-8' codec can't decode bytes in position {refusal.position}-{last}: {refusal.flaw.message}"

def isContinuation (byte : UInt8) : Bool := 0x80 ≤ byte && byte ≤ 0xbf

/-- Whether a second byte fits the first one: neither an overlong form, nor half a surrogate
pair, nor beyond the last character. -/
def fits (first second : UInt8) : Bool :=
  isContinuation second &&
    (if first = 0xe0 then 0xa0 ≤ second
     else if first = 0xed then second < 0xa0
     else if first = 0xf0 then 0x90 ≤ second
     else if first = 0xf4 then second < 0x90
     else true)

def width? (first : UInt8) : Option Nat :=
  if first < 0x80 then some 1
  else if 0xc2 ≤ first && first ≤ 0xdf then some 2
  else if 0xe0 ≤ first && first ≤ 0xef then some 3
  else if 0xf0 ≤ first && first ≤ 0xf4 then some 4
  else none

/-- The number of bytes after the first that continue a sequence as they should. -/
def goodTail (first : UInt8) : List UInt8 → Nat
  | [] => 0
  | second :: rest => if fits first second then 1 + (rest.takeWhile isContinuation).length else 0

def character (width : Nat) (bytes : List UInt8) : Char :=
  match bytes with
  | [] => Char.ofNat 0
  | first :: rest =>
    let lead := if width = 1 then first.toNat else first.toNat % Nat.pow 2 (7 - width)
    Char.ofNat (rest.foldl (fun value byte => value * 64 + byte.toNat % 64) lead)

def firstChar (position : Nat) (first : UInt8) (rest : List UInt8) : Except Refusal (Char × Nat) :=
  match width? first with
  | none => .error ⟨position, [first], .badStart⟩
  | some width =>
    let good := goodTail first (rest.take (width - 1))
    if good = width - 1 then .ok (character width (first :: rest.take (width - 1)), width)
    else if good = rest.length then .error ⟨position, first :: rest.take good, .cutOff⟩
    else .error ⟨position, first :: rest.take good, .badContinuation⟩

/-- Decodes bytes, of which `count` at most are left. -/
def decodeFrom (position : Nat) : (count : Nat) → List UInt8 → Except Refusal Chars
  | 0, _ => .ok []
  | _, [] => .ok []
  | count + 1, first :: rest => do
    let (c, width) ← firstChar position first rest
    let more ← decodeFrom (position + width) count (rest.drop (width - 1))
    return c :: more

def decode (bytes : List UInt8) : Except Refusal Chars := decodeFrom 0 bytes.length bytes

end Inyandiko.Text.Utf8
