import Inyandiko.Statement.Header

/-! Imports and exports. Lists of names give each name and, after `as`, the name it goes by on
the other side. -/
namespace Inyandiko

open Text Source

/-- Reads `name` or `name as other`. -/
def specifier? (token : Chars) : Option (String × String) := do
  let (name, rest) ← leadingName? token
  let own := String.ofList name
  if rest = [] then return (own, own)
  let rest ← dropLead? "as".toList (← dropBlanks? rest)
  let (other, rest) ← leadingName? (← dropBlanks? rest)
  if rest = [] then return (own, String.ofList other) else none

def specifiersOf (what : String) : List Chars → Except Fault (List (String × String))
  | [] => .ok []
  | token :: tokens => do
    match specifier? token with
    | none => throw ⟨.badSpecifier what (String.ofList token), none⟩
    | some pair => return pair :: (← specifiersOf what tokens)

/-- Reads a list of specifiers between commas; empty slots are skipped, but not all may be. -/
def parseSpecifiers (what : String) (text : Chars) : Except Fault (List (String × String)) := do
  let pairs ← specifiersOf what (((splitOn ',' text).map trim).filter (· ≠ []))
  if pairs.isEmpty then throw ⟨.noSpecifiers what, none⟩ else return pairs

inductive Import
  | whole (dependency name : String)
  | members (dependency : String) (pairs : List (String × String))
  deriving DecidableEq, Repr

/-- The text between a quote at the start and the same quote at the end, not empty. -/
def quotedName? : Chars → Option Chars
  | quote :: rest =>
    if (quote = '\'' || quote = '"') && rest.getLast? = some quote && 2 ≤ rest.length then
      some rest.dropLast
    else none
  | [] => none

def source? (text : Chars) : Option Chars := do
  let rest ← dropLead? "from".toList (trimStart text)
  quotedName? (trimStart rest)

/-- The text before the last closing brace that a dependency follows, and that dependency. -/
def memberList? : Chars → Option (Chars × Chars)
  | [] => none
  | c :: rest =>
    match memberList? rest with
    | some (inner, dependency) => some (c :: inner, dependency)
    | none => if c = '}' then (source? rest).map fun dependency => ([], dependency) else none

def memberImport? (text : Chars) : Option (Chars × Chars) := do
  let rest ← dropLead? "import".toList text
  match trimStart rest with
  | '{' :: rest => (memberList? rest).filter fun (inner, _) => inner ≠ []
  | _ => none

/-- The name and the dependency of an import as a whole, which stands on one line. -/
def wholeImport? (text : Chars) : Option (Chars × Chars) := do
  let rest ← dropLead? "import".toList text
  let (name, rest) ← leadingName? (← dropBlanks? rest)
  let rest ← dropLead? "from".toList (← dropBlanks? rest)
  let dependency ← quotedName? (← dropBlanks? rest)
  if dependency.contains '\n' then none else return (name, dependency)

def Import.parse (line : Chars) : Except Fault Import := do
  let text := stripSemicolon (trim line)
  match memberImport? text with
  | some (inner, dependency) => return .members (String.ofList dependency) (← parseSpecifiers "import" inner)
  | none =>
    match wholeImport? text with
    | some (name, dependency) => return .whole (String.ofList dependency) (String.ofList name)
    | none => throw ⟨.badImport (String.ofList line), some (String.ofList line)⟩

inductive Export
  | declaration (declared : Declaration)
  | assignment (assigned : Assignment)
  | names (pairs : List (String × String))
  deriving DecidableEq, Repr

def Export.parse (line : Chars) : Except Fault Export := do
  let body := trim ((stripSemicolon (trim line)).drop "export".length)
  if let some declared := Declaration.parse? body then return .declaration declared
  if let some assigned := Assignment.parse? body then return .assignment assigned
  match body with
  | '{' :: rest =>
    if rest.getLast? = some '}' && 2 ≤ rest.length then
      return .names (← parseSpecifiers "export" rest.dropLast)
    else throw ⟨.badExport (String.ofList line), some (String.ofList line)⟩
  | _ =>
    if isName body then return .names [(String.ofList body, String.ofList body)]
    else throw ⟨.badExport (String.ofList line), some (String.ofList line)⟩

end Inyandiko
