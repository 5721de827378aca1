import Inyandiko.Statement.Call
import Inyandiko.Value.Display

/-! Binary operators. An expression is split at the right-most operator of the lowest tier that
stands outside quotes and brackets; a plus or minus that follows another operator, an opening
parenthesis, a comma or nothing is a sign and does not split. -/
namespace Inyandiko

open Text

inductive Operator
  | or
  | and
  | eq
  | ne
  | ge
  | le
  | gt
  | lt
  | add
  | sub
  | mul
  | div
  | rem
  deriving DecidableEq, Repr

namespace Operator

def spelling : Operator → Chars
  | or => ['|', '|']
  | and => ['&', '&']
  | eq => ['=', '=']
  | ne => ['!', '=']
  | ge => ['>', '=']
  | le => ['<', '=']
  | gt => ['>']
  | lt => ['<']
  | add => ['+']
  | sub => ['-']
  | mul => ['*']
  | div => ['/']
  | rem => ['%']

/-- The operators that bind equally, the loosest first. -/
def tiers : List (List Operator) :=
  [[or], [and], [eq, ne], [ge, le, gt, lt], [add, sub], [mul, div, rem]]

def ofSpelling? (text : Chars) : Option Operator := tiers.flatten.find? (·.spelling = text)

/-- After these characters a plus or minus is a sign. -/
def signPredecessors : List Char := ['+', '-', '*', '/', '%', '<', '>', '=', '!', '&', '|', '(', ',']

def isSignAfter (before : Option Char) : Bool := before.all signPredecessors.contains

/-- Whether a plus or minus at an index is a sign. An index below zero counts from the end. -/
def isSignAt (text : Chars) (index : Int) : Bool :=
  let length := if index < 0 then (text.length + index).toNat else index.toNat
  isSignAfter (trimEnd (text.take length)).getLast?

variable {α : Type}

def atSpot? (spell : α → Chars) (operators : List α) (spot : Spot) : Option α :=
  operators.find? fun operator =>
    startsWith (spot.char :: spot.rest) (spell operator) &&
      !((spell operator = ['+'] || spell operator = ['-']) && isSignAfter spot.before)

/-- The last operator among spots, given the bracket depth, the index before which an operator
already found extends, and that operator. -/
def lastAmong (spell : α → Chars) (operators : List α) (depth : Int) (skip : Nat)
    (last : Option (Nat × α)) : List Spot → Option (Nat × α)
  | [] => last
  | spot :: spots =>
    if opens spot.char then lastAmong spell operators (depth + 1) skip last spots
    else if closes spot.char then lastAmong spell operators (depth - 1) skip last spots
    else if depth ≠ 0 || spot.index < skip then lastAmong spell operators depth skip last spots
    else match atSpot? spell operators spot with
      | some operator =>
        lastAmong spell operators depth (spot.index + (spell operator).length)
          (some (spot.index, operator)) spots
      | none => lastAmong spell operators depth skip last spots

/-- The right-most of some operators outside quotes and brackets, with its index. Where two
begin at one spot the longer one counts. -/
def find? (spell : α → Chars) (operators : List α) (text : Chars) : Option (Nat × α) :=
  let ordered := operators.mergeSort fun a b => (spell b).length ≤ (spell a).length
  lastAmong spell ordered 0 0 none (spots text)

def split? (text : Chars) : List (List Operator) → Option (Token × Operator × Token)
  | [] => none
  | tier :: tiers =>
    match find? spelling tier text with
    | some (index, operator) =>
      some (trim (text.take index), operator, trim (text.drop (index + operator.spelling.length)))
    | none => split? text tiers

end Operator

/-- Whether the parentheses of a text are closed at none of these spots before its last one. -/
def staysOpen (last : Nat) (depth : Int) : List Spot → Bool
  | [] => true
  | spot :: spots =>
    let depth := if spot.char = '(' then depth + 1 else if spot.char = ')' then depth - 1 else depth
    !(depth = 0 && spot.index < last) && staysOpen last depth spots

def stripParens (expression : Chars) : Chars :=
  let text := trim expression
  if text.head? = some '(' && text.getLast? = some ')' then
    if staysOpen (text.length - 1) 0 (spots text) then trim (text.drop 1).dropLast else text
  else text

/-- A value as a number; the token is what a complaint shows. -/
def Value.toNumber (value : Value) (token : Token) : Except Halt Number :=
  match value with
  | .number n => .ok n
  | _ => .error (.ofCause (.notNumeric (String.ofList token)))

/-- The order of two numbers or of two texts, `none` inside when they have none. -/
def Value.compare (left right : Value) (leftToken rightToken : Token) :
    Except Halt (Option Ordering) :=
  match left, right with
  | .number x, .number y => .ok (x.compare? y)
  | .text s, .text t => .ok (some (compareOfLessAndEq s t))
  | .number _, _ | .text _, _ => .error (.ofCause (.notComparable (String.ofList rightToken)))
  | _, _ => .error (.ofCause (.notComparable (String.ofList leftToken)))

namespace Operator

/-- Applies an operation of numbers; an integral result is an integer. -/
def arithmetic (op : Number → Number → Except Crash Number) (x y : Number) : Except Halt Value :=
  match op x y with
  | .ok n => .ok (.number n.normalize)
  | .error crash => .error (.crash crash)

def division (op : Number → Number → Except Crash Number) (x y : Number) (token : Token) :
    Except Halt Value :=
  if y.isZero then .error (.ofCause (.divisionByZero (String.ofList token))) else arithmetic op x y

def onNumbers (left right : Value) (leftToken rightToken : Token)
    (op : Number → Number → Except Halt Value) : Except Halt Value := do
  let x ← left.toNumber leftToken
  let y ← right.toNumber rightToken
  op x y

def isText : Value → Bool
  | .text _ => true
  | _ => false

/-- Applies an operator to two values; the tokens are what complaints show. -/
def apply (heap : Heap) (operator : Operator) (left right : Value) (leftToken rightToken : Token) :
    Except Halt Value :=
  match operator with
  | or => .ok (.bool (left.truthy || right.truthy))
  | and => .ok (.bool (left.truthy && right.truthy))
  | eq => .ok (.bool (left.equals right))
  | ne => .ok (.bool (!left.equals right))
  | gt => return .bool ((← left.compare right leftToken rightToken) = some .gt)
  | lt => return .bool ((← left.compare right leftToken rightToken) = some .lt)
  | ge => return .bool ((← left.compare right leftToken rightToken).any Ordering.isGE)
  | le => return .bool ((← left.compare right leftToken rightToken).any Ordering.isLE)
  | add =>
    if isText left || isText right then return .text ((← heap.displayText left) ++ (← heap.displayText right))
    else onNumbers left right leftToken rightToken (arithmetic Number.add)
  | sub => onNumbers left right leftToken rightToken (arithmetic Number.sub)
  | mul => onNumbers left right leftToken rightToken (arithmetic Number.mul)
  | div => onNumbers left right leftToken rightToken fun x y => division Number.div x y rightToken
  | rem => onNumbers left right leftToken rightToken fun x y => division Number.rem x y rightToken

def applySpelled (heap : Heap) (spelling : Chars) (left right : Value) (leftToken rightToken : Token) :
    Except Halt Value :=
  match ofSpelling? spelling with
  | some operator => operator.apply heap left right leftToken rightToken
  | none =>
    onNumbers left right leftToken rightToken fun _ _ =>
      .error (.ofCause (.unsupportedOperator (String.ofList spelling)))

end Operator

end Inyandiko
