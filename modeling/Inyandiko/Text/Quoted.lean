import Inyandiko.Text.Printable

/-! The quoted form of a text: single quotes, or double quotes when the text has a single
quote and no double one; backslashes, line breaks, tabs and what is not printable are
written as escapes. -/
namespace Inyandiko.Text

/-- A number in lower-case hexadecimal digits, padded with zeros. -/
def hex (width n : Nat) : Chars :=
  let digits := Nat.toDigits 16 n
  List.replicate (width - digits.length) '0' ++ digits

def quoteChar (quote c : Char) : Chars :=
  if c = quote || c = '\\' then ['\\', c]
  else if c = '\n' then ['\\', 'n']
  else if c = '\r' then ['\\', 'r']
  else if c = '\t' then ['\\', 't']
  else if isPrintable c then [c]
  else if c.toNat ≤ 0xff then '\\' :: 'x' :: hex 2 c.toNat
  else if c.toNat ≤ 0xffff then '\\' :: 'u' :: hex 4 c.toNat
  else '\\' :: 'U' :: hex 8 c.toNat

def quoted (text : Chars) : Chars :=
  let quote := if text.contains '\'' && !text.contains '"' then '"' else '\''
  quote :: text.flatMap (quoteChar quote) ++ [quote]

end Inyandiko.Text
