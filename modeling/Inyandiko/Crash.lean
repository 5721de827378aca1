import Inyandiko.Text.Quoted

/-! Crashes: what ends a run without being a fault of the script's own language, such as a
number out of range, a host function that refuses its arguments or a network that does not
answer. -/
namespace Inyandiko

/-- The most decimal digits of an integer that is read from text or written to it. -/
def digitLimit : Nat := 4300

inductive Crash
  | badInteger (text : String)
  | badFloat (text : String)
  /-- An integer with too many digits was to be read. -/
  | longNumeral (digits : Nat)
  /-- An integer with too many digits was to be written. -/
  | longInteger
  | remainderOfInfinity
  | nanToInteger
  | infinityToInteger
  | integerTooLarge
  | quotientTooLarge
  /-- A value that contains itself was to be written as a document. -/
  | circular
  | nullInName
  | undecodable (reason : String)
  | missingKey (key : String)
  /-- An empty mapping has no first key. -/
  | noKey
  | indexOutOfRange
  | popEmpty
  | popOutOfRange
  /-- A template has a field that no argument is given for. -/
  | missingArgument (position : Nat)
  | badTemplate (message : String)
  | hostFailure (message : String)
  | hostRefusal (message : String)
  | unreachable
  | badDocument (reason : String)
  | wrongType (message : String)
  | missingAttribute (message : String)
  deriving DecidableEq, Repr

namespace Crash

inductive Kind
  | value
  | overflow
  | key
  | index
  | host
  | network
  | document
  | type
  | attribute
  deriving DecidableEq, Repr

def kind : Crash → Kind
  | badInteger _ | badFloat _ | longNumeral _ | longInteger | remainderOfInfinity | nanToInteger
  | circular | nullInName | undecodable _ | badTemplate _ => .value
  | infinityToInteger | integerTooLarge | quotientTooLarge => .overflow
  | missingKey _ | noKey => .key
  | indexOutOfRange | popEmpty | popOutOfRange | missingArgument _ => .index
  | hostFailure _ => .host
  | hostRefusal _ | wrongType _ => .type
  | unreachable => .network
  | badDocument _ => .document
  | missingAttribute _ => .attribute

def limitMessage : String := s!"Exceeds the limit ({digitLimit} digits) for integer string conversion"

def limitAdvice : String := "; use sys.set_int_max_str_digits() to increase the limit"

/-- The longest part of a text that a complaint about an integer shows. -/
def shownChars : Nat := 200

def message : Crash → String
  | badInteger text =>
    "invalid literal for int() with base 10: " ++
      String.ofList ((Text.quoted text.toList).take shownChars)
  | badFloat text => "could not convert string to float: " ++ String.ofList (Text.quoted text.toList)
  | longNumeral digits => limitMessage ++ s!": value has {digits} digits" ++ limitAdvice
  | longInteger => limitMessage ++ limitAdvice
  | remainderOfInfinity => "math domain error"
  | nanToInteger => "cannot convert float NaN to integer"
  | infinityToInteger => "cannot convert float infinity to integer"
  | integerTooLarge => "int too large to convert to float"
  | quotientTooLarge => "integer division result too large for a float"
  | circular => "Circular reference detected"
  | nullInName => "embedded null byte"
  | undecodable reason => reason
  | missingKey key => key
  | noKey => ""
  | indexOutOfRange => "list index out of range"
  | popEmpty => "pop from empty list"
  | popOutOfRange => "pop index out of range"
  | missingArgument position => s!"Replacement index {position} out of range for positional args tuple"
  | badTemplate message => message
  | hostFailure message => message
  | hostRefusal message => message
  | unreachable => "unreachable"
  | badDocument reason => reason
  | wrongType message => message
  | missingAttribute message => message

/-- The text of a crash where it is reported: a missing key is quoted. -/
def report : Crash → String
  | missingKey key => String.ofList (Text.quoted key.toList)
  | crash => crash.message

end Crash

end Inyandiko
