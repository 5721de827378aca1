import Inyandiko.Source
import Inyandiko.Text.Name

/-! Calls. A call is a name and a parenthesised list of arguments that spans the whole line; the
arguments are separated by the commas that stand outside quotes and brackets. -/
namespace Inyandiko

open Text Source

/-- The text of an expression. -/
abbrev Token := Chars

/-- Drops a semicolon at the end and the blanks around what is left. -/
def stripSemicolon (line : Chars) : Chars :=
  if line.getLast? = some ';' then trim line.dropLast else line

def topLevelCommas (depth : Int) : List Spot → List Nat
  | [] => []
  | spot :: spots =>
    if opens spot.char then topLevelCommas (depth + 1) spots
    else if closes spot.char then topLevelCommas (depth - 1) spots
    else if spot.char = ',' && depth = 0 then spot.index :: topLevelCommas depth spots
    else topLevelCommas depth spots

/-- Cuts a text that begins at index `start` at the characters of the given indexes. -/
def cutAt (start : Nat) (text : Chars) : List Nat → List Chars
  | [] => [text]
  | index :: indexes =>
    text.take (index - start) :: cutAt (index + 1) (text.drop (index + 1 - start)) indexes

/-- The trimmed pieces between the top-level commas; an empty last piece does not count. -/
def splitTopLevel (text : Chars) : List Token :=
  let pieces := (cutAt 0 text (topLevelCommas 0 (spots text))).map trim
  if pieces.getLast? = some [] then pieces.dropLast else pieces

/-- The first spot at which a closing parenthesis balances the parentheses seen. -/
def balancedAt (depth : Int) : List Spot → Option Nat
  | [] => none
  | spot :: spots =>
    if spot.char = '(' then balancedAt (depth + 1) spots
    else if spot.char = ')' then
      if depth - 1 = 0 then some spot.index else balancedAt (depth - 1) spots
    else balancedAt depth spots

def matchingParen (text : Chars) (start : Int) : Option Nat :=
  balancedAt 0 ((spots text).filter fun spot => start ≤ spot.index)

/-- A call: the name, the argument tokens and the text without its semicolon. -/
structure Call where
  name : String
  args : List Token
  line : Line
  deriving DecidableEq, Repr

def Call.parse? (line : Chars) : Option Call := do
  let text := stripSemicolon (trim line)
  let (name, rest) ← leadingName? text
  match trimStart rest with
  | '(' :: _ =>
    let start := text.length - (trimStart rest).length
    if matchingParen text start = some (text.length - 1) then
      some { name := String.ofList name
             args := splitTopLevel (text.drop (start + 1)).dropLast
             line := text }
    else none
  | _ => none

def Call.parseNamed? (line : Chars) (names : List String) : Option Call :=
  (Call.parse? line).filter fun call => names.contains call.name

end Inyandiko
