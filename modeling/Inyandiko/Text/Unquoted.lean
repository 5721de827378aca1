import Inyandiko.Text.Blank

/-! The characters of a text that stand outside quotes. A quote character opens or closes
a quoted span unless a backslash stands right before it, and the other kind of quote is
an ordinary character inside a span. -/
namespace Inyandiko.Text

/-- Where a scan of a text stands: outside quotes, or inside one kind of them. -/
inductive Span
  | code
  | single
  | double
  deriving DecidableEq, Repr, Inhabited

/-- The span after a quote character that takes effect, `none` for any other character. -/
def Span.toggle? (span : Span) (escaped : Bool) (c : Char) : Option Span :=
  if escaped then none
  else match span, c with
    | .code, '\'' => some .single
    | .single, '\'' => some .code
    | .code, '"' => some .double
    | .double, '"' => some .code
    | _, _ => none

/-- A character outside quotes: its index, the last character before it that is not blank,
and the text after it. -/
structure Spot where
  index : Nat
  char : Char
  before : Option Char
  rest : Chars
  deriving DecidableEq, Repr

structure Scan where
  span : Span := .code
  escaped : Bool := false
  before : Option Char := none
  index : Nat := 0
  deriving DecidableEq, Repr

def Scan.next (scan : Scan) (c : Char) : Scan where
  span := (scan.span.toggle? scan.escaped c).getD scan.span
  escaped := c = '\\'
  before := if isBlank c then scan.before else some c
  index := scan.index + 1

def Scan.sees (scan : Scan) (c : Char) : Bool :=
  scan.span = .code && (scan.span.toggle? scan.escaped c).isNone

def Scan.spots (scan : Scan) : Chars → List Spot
  | [] => []
  | c :: rest =>
    if scan.sees c then ⟨scan.index, c, scan.before, rest⟩ :: (scan.next c).spots rest
    else (scan.next c).spots rest

def spots (text : Chars) : List Spot := ({} : Scan).spots text

def codeChars (text : Chars) : List (Nat × Char) := (spots text).map fun spot => (spot.index, spot.char)

/-- Opening braces less closing braces outside quotes. -/
def braceDelta (text : Chars) : Int :=
  (spots text).foldl (fun total spot =>
    if spot.char = '{' then total + 1 else if spot.char = '}' then total - 1 else total) 0

def opens (c : Char) : Bool := c = '(' || c = '[' || c = '{'

def closes (c : Char) : Bool := c = ')' || c = ']' || c = '}'

end Inyandiko.Text
