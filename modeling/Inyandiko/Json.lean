import Inyandiko.Binary64

/-! JSON documents. Integers and floating-point numbers are told apart, and the members of an
object are kept as they are written, repeated names included. -/
namespace Inyandiko

inductive Json
  | null
  | bool (value : Bool)
  | int (value : Int)
  | float (value : Binary64)
  | text (value : String)
  | array (items : List Json)
  | object (members : List (String × Json))
  deriving Repr, Inhabited

namespace Json

/-- The value of the last member of a name. -/
def member? (name : String) : Json → Option Json
  | .object members => members.reverse.lookup name
  | _ => none

end Json

end Inyandiko
