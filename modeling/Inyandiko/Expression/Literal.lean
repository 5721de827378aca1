import Inyandiko.Json.Reader
import Inyandiko.Statement.Call
import Inyandiko.Value.Display

/-! Literals: texts in quotes, documents in braces or brackets, decimal numbers and the words for
truth values and null. -/
namespace Inyandiko

open Text

/-- The index of the first quote that no backslash precedes. -/
def quoteEnd? (quote previous : Char) (index : Nat) : Chars → Option Nat
  | [] => none
  | c :: rest =>
    if c = quote && previous ≠ '\\' then some index else quoteEnd? quote c (index + 1) rest

def unescapeQuotes : Chars → Chars
  | [] => []
  | '\\' :: '\'' :: rest => '\'' :: unescapeQuotes rest
  | c :: rest => c :: unescapeQuotes rest

/-- A text in quotes that close at its end. In single quotes only the quote is escaped, in double
quotes the escapes are those of documents. -/
def textLiteral? (token : Token) : Except Halt (Option Value) :=
  match token with
  | [] => .ok none
  | quote :: rest =>
    if (quote = '\'' || quote = '"') && quoteEnd? quote quote 1 rest = some rest.length then
      if quote = '\'' then .ok (some (.text (String.ofList (unescapeQuotes rest.dropLast))))
      else match Json.read 0 token with
        | .ok (.text s) => .ok (some (.text s))
        | _ => .error (.ofCause (.badText (String.ofList token)))
    else .ok none

def isBracketed (token : Token) : Bool :=
  (token.head? = some '{' && token.getLast? = some '}') ||
    (token.head? = some '[' && token.getLast? = some ']')

/-- A document in braces or brackets; every reading makes a new value. -/
def documentLiteral? (token : Token) : HeapM (Option Value) := do
  if isBracketed token then
    let heap ← get
    match Json.read heap.runtime.reading token with
    | .ok json =>
      let (value, heap) := heap.ofJson json
      set heap
      return some value
    | .error .tooDeep => throw .tooDeep
    | .error _ => return none
  else return none

/-- Whether a token is a decimal number: a sign or none, digits, and a fraction or none. -/
def isNumeral (token : Token) : Bool :=
  let body := if token.head? = some '-' then token.drop 1 else token
  let rest := body.dropWhile isDecimal
  !(body.takeWhile isDecimal).isEmpty &&
    match rest with
    | [] => true
    | '.' :: fraction => !fraction.isEmpty && fraction.all isDecimal
    | _ => false

/-- A decimal number; with a point it is a floating-point number. -/
def numberLiteral? (token : Token) : Except Halt (Option Value) :=
  if isNumeral token then
    let text := String.ofList token
    if token.contains '.' then
      match Numeral.readFloat text with
      | .ok x => .ok (some (.number (.float x)))
      | .error crash => .error (.crash crash)
    else
      match Numeral.readInt text with
      | .ok n => .ok (some (.int n))
      | .error crash => .error (.crash crash)
  else .ok none

def wordLiteral? (token : Token) : Option Value :=
  if token = "true".toList then some (.bool true)
  else if token = "false".toList then some (.bool false)
  else if token = "null".toList || token = "undefined".toList then some .null
  else none

end Inyandiko
