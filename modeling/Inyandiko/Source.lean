import Inyandiko.Text.Unquoted

/-! Source text and its logical lines. Carriage returns, alone or before a line feed, are
line breaks; a comment runs from two slashes outside quotes to the end of its line; what is
left is trimmed, and empty lines are dropped. -/
namespace Inyandiko.Source

open Text

/-- A trimmed piece of source text. -/
abbrev Line := Chars

/-- Writes every line break as one line feed. -/
def unifyBreaks : Chars → Chars
  | [] => []
  | '\r' :: '\n' :: rest => '\n' :: unifyBreaks rest
  | c :: rest => (if c = '\r' then '\n' else c) :: unifyBreaks rest

/-- Cuts a line at its first two slashes outside quotes. -/
def stripComment (line : Chars) : Chars :=
  match (spots line).find? fun spot => spot.char = '/' && spot.rest.head? = some '/' with
  | some spot => line.take spot.index
  | none => line

def lines (source : Chars) : List Line :=
  ((splitOn '\n' (unifyBreaks source)).map fun raw => trim (stripComment raw)).filter (· ≠ [])

end Inyandiko.Source
