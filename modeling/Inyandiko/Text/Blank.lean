/-! White space. A character is blank when it has the white-space property of Unicode
or is one of the four information separators; trimming removes blanks at the ends. -/
namespace Inyandiko.Text

/-- A piece of text taken apart into its characters. -/
abbrev Chars := List Char

/-- The ranges of blank characters, first and last code point each. -/
def blankRanges : List (Nat × Nat) :=
  [(0x9, 0xd), (0x1c, 0x20), (0x85, 0x85), (0xa0, 0xa0), (0x1680, 0x1680), (0x2000, 0x200a),
   (0x2028, 0x2029), (0x202f, 0x202f), (0x205f, 0x205f), (0x3000, 0x3000)]

def isBlank (c : Char) : Bool :=
  blankRanges.any fun range => range.1 ≤ c.toNat && c.toNat ≤ range.2

def trimStart (text : Chars) : Chars := text.dropWhile isBlank

def trimEnd (text : Chars) : Chars := (text.reverse.dropWhile isBlank).reverse

def trim (text : Chars) : Chars := trimEnd (trimStart text)

/-- The pieces of a text between the occurrences of a separator, empty pieces included. -/
def splitOn (separator : Char) : Chars → List Chars
  | [] => [[]]
  | c :: rest =>
    if c = separator then [] :: splitOn separator rest
    else match splitOn separator rest with
      | [] => [[c]]
      | piece :: pieces => (c :: piece) :: pieces

/-- Removes a known beginning; `none` when the text does not begin that way. -/
def dropLead? : Chars → Chars → Option Chars
  | [], text => some text
  | _ :: _, [] => none
  | c :: lead, d :: text => if c = d then dropLead? lead text else none

def startsWith (text lead : Chars) : Bool := (dropLead? lead text).isSome

def occursIn (part : Chars) : Chars → Bool
  | [] => part.isEmpty
  | c :: rest => startsWith (c :: rest) part || occursIn part rest

end Inyandiko.Text
