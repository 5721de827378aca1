import Inyandiko.Expression.Literal
import Inyandiko.Expression.Operator
import Inyandiko.Expression.Path

/-! Evaluation of expressions. A token is, in this order, a literal, a name, a path, an expression
in parentheses, two operands of the right-most operator of the loosest tier, or an operand after
a sign or a negation. Both operands are always evaluated, the left one first. Only the names that
the token mentions matter, so evaluation takes a look-up of names and nothing else of the scope. -/
namespace Inyandiko

open Text

def simpleValue? (lookup : String → Option Value) (token : Token) : HeapM (Option Value) := do
  if let some value ← textLiteral? token then return some value
  if let some value ← documentLiteral? token then return some value
  if let some value ← numberLiteral? token then return some value
  if let some value := wordLiteral? token then return some value
  if let some value := lookup (String.ofList token) then return some value
  resolvePath lookup token

/-- The value of an expression with operators, given how its operands are evaluated. -/
def evaluateOperators (operand : Token → HeapM Value) (text : Chars) : HeapM Value :=
  match Operator.split? text Operator.tiers with
  | some (leftToken, operator, rightToken) =>
    if leftToken = [] || rightToken = [] then
      throw (.ofCause (.missingOperand (String.ofList operator.spelling) (String.ofList text)))
    else do
      let left ← operand leftToken
      let right ← operand rightToken
      operator.apply (← get) left right leftToken rightToken
  | none =>
    match text with
    | '!' :: c :: rest => return .bool (!(← operand (c :: rest)).truthy)
    | '-' :: c :: rest => do
      let token := trim (c :: rest)
      return .number (← (← operand token).toNumber token).neg
    | '+' :: c :: rest => do
      let token := trim (c :: rest)
      return .number (← (← operand token).toNumber token)
    | _ => throw (.ofCause (.unknownValue (String.ofList text)))

def evaluateWithin (lookup : String → Option Value) : (depth : Nat) → Token → HeapM Value
  | 0, _ => throw .tooDeep
  | depth + 1, token => do
    let text := trim token
    if text = [] then throw (.ofCause .emptyToken)
    if let some value ← simpleValue? lookup text then return value
    let inner := stripParens text
    if inner ≠ text then evaluateWithin lookup depth inner
    else evaluateOperators (evaluateWithin lookup depth) text

def evaluate (lookup : String → Option Value) (token : Token) : HeapM Value :=
  evaluateWithin lookup nestingLimit token

end Inyandiko
