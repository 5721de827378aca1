import Inyandiko.Text.Blank

/-! Names: a letter of the basic alphabet or an underscore, then letters, digits and
underscores. -/
namespace Inyandiko.Text

def isNameStart (c : Char) : Bool :=
  ('A' ≤ c && c ≤ 'Z') || ('a' ≤ c && c ≤ 'z') || c = '_'

def isNamePart (c : Char) : Bool := isNameStart c || ('0' ≤ c && c ≤ '9')

/-- The longest name at the start of a text, and what follows it. -/
def leadingName? : Chars → Option (Chars × Chars)
  | [] => none
  | c :: rest =>
    if isNameStart c then some (c :: rest.takeWhile isNamePart, rest.dropWhile isNamePart) else none

/-- Whether the whole text is one name; one line break after it is overlooked. -/
def isName (text : Chars) : Bool :=
  match leadingName? text with
  | some (_, rest) => rest = [] || rest = ['\n']
  | none => false

/-- Names that begin with an underscore are private to the host. -/
def isPrivateName (name : String) : Bool := name.startsWith "_"

end Inyandiko.Text
