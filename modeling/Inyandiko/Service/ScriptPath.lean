import Inyandiko.Crash
import Inyandiko.FileTree
import Inyandiko.Text.Utf8

/-! Script files of the service. A client's name leads to a script only below the script root. -/
namespace Inyandiko

def scriptSuffix : String := ".ikw"

inductive PathError
  | nullInName
  | wrongSuffix (name : String)
  | outsideRoot (name : String)
  | notFound (name : String)
  | undecodable (refusal : Text.Utf8.Refusal)
  deriving DecidableEq, Repr

def PathError.message : PathError → String
  | .nullInName => Crash.nullInName.message
  | .wrongSuffix name => s!"Script files must end in {scriptSuffix}: {name}"
  | .outsideRoot name => s!"Script path escapes the script root: {name}"
  | .notFound name => s!"Script not found: {name}"
  | .undecodable refusal => refusal.message

/-- The script file that a client's name stands for: with the right suffix, within the root. -/
def resolveScript (tree : FileTree) (root : Location) (name : String) :
    Except PathError (Location × List UInt8) :=
  if name.toList.contains '\x00' then .error .nullInName
  else
    let location := Location.resolve root name
    if location.suffix ≠ scriptSuffix then .error (.wrongSuffix name)
    else if !Location.isWithin root location then .error (.outsideRoot name)
    else match tree.file? location with
      | some bytes => .ok (location, bytes)
      | none => .error (.notFound name)

def readScript (tree : FileTree) (root : Location) (name : String) : Except PathError String := do
  let (_, bytes) ← resolveScript tree root name
  match Text.Utf8.decode bytes with
  | .ok text => return String.ofList text
  | .error refusal => throw (.undecodable refusal)

end Inyandiko
