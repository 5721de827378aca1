import Inyandiko.Binary64.Decimal
import Inyandiko.Json
import Inyandiko.Text.Quoted

/-! Writing JSON documents, on one line or indented. Characters outside the printable basic
alphabet are written as escapes of sixteen bits, in pairs where one does not suffice, and the
floating-point numbers without a numeral by their names. -/
namespace Inyandiko.Json

open Text

def unitEscape (unit : Nat) : Chars := '\\' :: 'u' :: hex 4 unit

def escapeChar (c : Char) : Chars :=
  if c = '"' then ['\\', '"']
  else if c = '\\' then ['\\', '\\']
  else if c = '\n' then ['\\', 'n']
  else if c = '\r' then ['\\', 'r']
  else if c = '\t' then ['\\', 't']
  else if c = '\x0c' then ['\\', 'f']
  else if c = '\x08' then ['\\', 'b']
  else if ' ' ≤ c && c ≤ '~' then [c]
  else if c.toNat < 0x10000 then unitEscape c.toNat
  else
    let offset := c.toNat - 0x10000
    unitEscape (0xd800 + offset / 0x400) ++ unitEscape (0xdc00 + offset % 0x400)

def writeText (text : Chars) : Chars := '"' :: text.flatMap escapeChar ++ ['"']

def writeInt (n : Int) : Chars :=
  if n < 0 then '-' :: Nat.toDigits 10 n.natAbs else Nat.toDigits 10 n.natAbs

/-- A floating-point number: its shortest numeral, or a name. -/
def writeFloat (x : Binary64) : Chars :=
  match x with
  | .nan => "NaN".toList
  | .infinite false => "Infinity".toList
  | .infinite true => "-Infinity".toList
  | x => x.write

inductive Spacing
  | line
  /-- Every part on a line of its own, two blanks deeper than its container. -/
  | indented (level : Nat)

def Spacing.deeper : Spacing → Spacing
  | .line => .line
  | .indented level => .indented (level + 1)

/-- What stands before a part, or before the closing bracket of a container. -/
def Spacing.lead : Spacing → Chars
  | .line => []
  | .indented level => '\n' :: List.replicate (2 * level) ' '

def Spacing.between : Spacing → Chars
  | .line => [',', ' ']
  | spacing => ',' :: spacing.lead

def bracket (opening closing : Char) (spacing : Spacing) (parts : List Chars) : Chars :=
  if parts.isEmpty then [opening, closing]
  else opening :: spacing.deeper.lead ++ List.intercalate spacing.deeper.between parts ++
    spacing.lead ++ [closing]

mutual

def writeWith (spacing : Spacing) : Json → Chars
  | .null => "null".toList
  | .bool true => "true".toList
  | .bool false => "false".toList
  | .int n => writeInt n
  | .float x => writeFloat x
  | .text s => writeText s.toList
  | .array items => bracket '[' ']' spacing (writeItems spacing.deeper items)
  | .object members => bracket '{' '}' spacing (writeMembers spacing.deeper members)

def writeItems (spacing : Spacing) : List Json → List Chars
  | [] => []
  | item :: items => writeWith spacing item :: writeItems spacing items

def writeMembers (spacing : Spacing) : List (String × Json) → List Chars
  | [] => []
  | (name, value) :: members =>
    (writeText name.toList ++ ':' :: ' ' :: writeWith spacing value) :: writeMembers spacing members

end

def write (json : Json) : Chars := writeWith .line json

def writeIndented (json : Json) : Chars := writeWith (.indented 0) json

end Inyandiko.Json
