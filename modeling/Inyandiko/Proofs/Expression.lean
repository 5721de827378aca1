import Inyandiko.Expression
import Inyandiko.Proofs.Trim

/-! Expressions as trees, the texts that spell them, and their values from the bottom up. A text
has parentheses only where the tiers of the operators and their association to the left require
them, and any number of spaces between its tokens. -/
namespace Inyandiko

open Text

/-- The digits of an integer. -/
structure IntegerLiteral where
  digits : Chars
  nonempty : digits ≠ []
  decimal : digits.all isDecimal = true
  short : digits.length ≤ digitLimit

/-- The number that the digits spell. -/
def IntegerLiteral.value (literal : IntegerLiteral) : Int :=
  digitsValue (literal.digits.filterMap decimalValue?)

/-- The words for values. -/
inductive ValueWord
  | true
  | false
  | null
  deriving DecidableEq, Repr

/-- The spelling of a word. -/
def ValueWord.text : ValueWord → Chars
  | .true => "true".toList
  | .false => "false".toList
  | .null => "null".toList

/-- The value of a word. -/
def ValueWord.value : ValueWord → Value
  | .true => .bool Bool.true
  | .false => .bool Bool.false
  | .null => .null

/-- The content of a text in single quotes. A backslash at its end would hide the closing quote. -/
structure QuotedText where
  content : Chars
  closed : content.getLast? ≠ some '\\'

/-- Puts a backslash before every single quote. -/
def escapeQuotes : Chars → Chars
  | [] => []
  | c :: rest => if c = '\'' then '\\' :: '\'' :: escapeQuotes rest else c :: escapeQuotes rest

/-- A name that is no word for a value. -/
structure VariableName where
  text : Chars
  identifier : isIdentifier text = true
  unreserved : wordLiteral? text = none

/-- An expression without operators. -/
inductive Leaf
  | integer (literal : IntegerLiteral)
  | word (word : ValueWord)
  | quoted (text : QuotedText)
  | name (name : VariableName)

/-- The spelling of an expression without operators. -/
def Leaf.text : Leaf → Chars
  | .integer literal => literal.digits
  | .word kind => kind.text
  | .quoted inner => '\'' :: (escapeQuotes inner.content ++ ['\''])
  | .name variableName => variableName.text

/-- The operators in front of one operand. -/
inductive Unary
  | not
  | minus
  | plus
  deriving DecidableEq, Repr

/-- The spelling of an operator in front of its operand. -/
def Unary.char : Unary → Char
  | not => '!'
  | minus => '-'
  | plus => '+'

/-- The place of an operator's tier, from the loosest on. -/
def Operator.tier : Operator → Nat
  | or => 0
  | and => 1
  | eq | ne => 2
  | ge | le | gt | lt => 3
  | add | sub => 4
  | mul | div | rem => 5

/-- The place of the operators with one operand, which bind tighter than all others. -/
def unaryTier : Nat := 6

/-- An expression. -/
inductive Expression
  | leaf (leaf : Leaf)
  | unary (operator : Unary) (operand : Expression)
  | binary (operator : Operator) (left right : Expression)

namespace Expression

/-- How tightly an expression holds together. -/
def tier : Expression → Nat
  | leaf _ => unaryTier + 1
  | unary .. => unaryTier
  | binary operator .. => operator.tier

/-- The number of operators and operands on the longest way down. -/
def height : Expression → Nat
  | leaf _ => 1
  | unary _ operand => operand.height + 1
  | binary _ left right => max left.height right.height + 1

/-- The texts that spell an expression where only one that holds together as tightly as a tier can
stand without parentheses. The left operand may be of the operator's own tier, the right one has to
be of a tighter one. -/
inductive Spelled : (least : Nat) → Expression → Chars → Prop
  | leaf (least : Nat) (leaf : Leaf) : Spelled least (.leaf leaf) leaf.text
  | unary {least : Nat} {operand : Expression} {text : Chars} (operator : Unary) (gap : Nat)
      (fits : least ≤ unaryTier) (inner : Spelled unaryTier operand text) :
      Spelled least (.unary operator operand) (operator.char :: (spaces gap ++ text))
  | binary {least : Nat} {left right : Expression} {leftText rightText : Chars} (operator : Operator)
      (before after : Nat) (fits : least ≤ operator.tier) (one : Spelled operator.tier left leftText)
      (two : Spelled (operator.tier + 1) right rightText) :
      Spelled least (.binary operator left right)
        (leftText ++ (spaces before ++ (operator.spelling ++ (spaces after ++ rightText))))
  | parens {least : Nat} {expression : Expression} {text : Chars} (before after : Nat)
      (needed : expression.tier < least) (inner : Spelled 0 expression text) :
      Spelled least expression ('(' :: (spaces before ++ (text ++ (spaces after ++ [')']))))

/-- The value of an expression from the bottom up: the left operand first, both operands in any
case. Complaints show no operands. -/
def value (lookup : String → Option Value) (heap : Heap) : Expression → Except Halt Value
  | leaf (.integer literal) => .ok (.int literal.value)
  | leaf (.word word) => .ok word.value
  | leaf (.quoted text) => .ok (.text (String.ofList text.content))
  | leaf (.name name) =>
    match lookup (String.ofList name.text) with
    | some value => .ok value
    | none => .error (.ofCause (.unknownValue (String.ofList name.text)))
  | unary .not operand => do return .bool !(← operand.value lookup heap).truthy
  | unary .minus operand => do
    return .number (← (← operand.value lookup heap).toNumber []).neg
  | unary .plus operand => do return .number (← (← operand.value lookup heap).toNumber [])
  | binary operator left right => do
    let one ← left.value lookup heap
    let two ← right.value lookup heap
    operator.apply heap one two [] []

end Expression

/-- The classes of what ends a computation early. -/
inductive Halt.Class
  | fault (category : Category)
  | crash (kind : Crash.Kind)
  | invalid
  | tooDeep
  | endless
  deriving DecidableEq, Repr

/-- The class of what ends a computation early. -/
def Halt.class : Halt → Halt.Class
  | .fault found => .fault found.cause.category
  | .crash found => .crash found.kind
  | .invalid _ => .invalid
  | .tooDeep => .tooDeep
  | .endless => .endless

/-- An evaluation that gives an expected value and leaves the heap alone, or fails with an error of
the expected class. -/
def Outcome {α : Type} (heap : Heap) (outcome : Except Halt (α × Heap)) (expected : Except Halt α) :
    Prop :=
  match outcome, expected with
  | .ok (value, after), .ok wanted => value = wanted ∧ after = heap
  | .error halt, .error wanted => halt.class = wanted.class
  | _, _ => False

end Inyandiko
