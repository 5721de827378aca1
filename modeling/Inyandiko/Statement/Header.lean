import Inyandiko.Fault
import Inyandiko.Statement.Call

/-! The texts of statements other than calls: bindings, the headers of functions, loops and
conditionals, and returns. -/
namespace Inyandiko

open Text Source

inductive Keyword
  | define
  | loop
  | branch
  | otherwise
  | giveBack
  | takeIn
  | handOut
  | letBinding
  | constBinding
  deriving DecidableEq, Repr

def Keyword.spelling : Keyword → String
  | .define => "umukoro"
  | .loop => "subiramo"
  | .branch => "niba"
  | .otherwise => "niba_atariyo"
  | .giveBack => "garura"
  | .takeIn => "import"
  | .handOut => "export"
  | .letBinding => "let"
  | .constBinding => "const"

def Keyword.all : List Keyword :=
  [.define, .loop, .branch, .otherwise, .giveBack, .takeIn, .handOut, .letBinding, .constBinding]

def keyword? (line : Chars) : Option Keyword := do
  let (name, _) ← leadingName? line
  Keyword.all.find? fun keyword => keyword.spelling = String.ofList name

def dropBlanks? (text : Chars) : Option Chars :=
  match text with
  | c :: rest => if isBlank c then some (trimStart rest) else none
  | [] => none

structure Assignment where
  name : String
  expression : Token
  deriving DecidableEq, Repr

/-- Reads `name = expression`; a second equals sign right after the first makes it none. -/
def Assignment.ofText? (text : Chars) : Option Assignment := do
  let (name, rest) ← leadingName? text
  match trimStart rest with
  | '=' :: value =>
    if value.head? = some '=' || value = [] then none
    else some ⟨String.ofList name, trim value⟩
  | _ => none

def Assignment.parse? (line : Chars) : Option Assignment := Assignment.ofText? (stripSemicolon (trim line))

structure Declaration where
  isConst : Bool
  name : String
  expression : Token
  deriving DecidableEq, Repr

def Declaration.parse? (line : Chars) : Option Declaration := do
  let (word, rest) ← leadingName? (stripSemicolon (trim line))
  let isConst ←
    if word = "let".toList then some false else if word = "const".toList then some true else none
  let text ← dropBlanks? rest
  let ⟨name, expression⟩ ← Assignment.ofText? text
  return ⟨isConst, name, expression⟩

structure FunctionHeader where
  name : String
  params : List String
  deriving DecidableEq, Repr

def FunctionHeader.parts? (line : Chars) : Option (Chars × Chars) := do
  let rest ← dropLead? "umukoro".toList (trim line)
  let (name, rest) ← leadingName? (← dropBlanks? rest)
  match trimStart rest with
  | '(' :: rest =>
    match rest.dropWhile (· ≠ ')') with
    | ')' :: after =>
      if trimStart after = ['{'] then some (name, rest.takeWhile (· ≠ ')')) else none
    | _ => none
  | _ => none

/-- Reads the header of a function; its parameters are different names. -/
def FunctionHeader.parse (line : Chars) : Except Fault FunctionHeader := do
  let text := String.ofList line
  match FunctionHeader.parts? line with
  | none => throw ⟨.badDefinition text, some text⟩
  | some (name, inner) =>
    let name := String.ofList name
    let params := if trim inner = [] then [] else (splitOn ',' (trim inner)).map trim
    match params.find? fun param => !isName param with
    | some param => throw ⟨.badParameter (String.ofList param) name, some text⟩
    | none =>
      if params.Nodup then return ⟨name, params.map String.ofList⟩
      else throw ⟨.duplicateParameter name, some text⟩

inductive LoopHeader
  | count (rounds : Token)
  | range (name : String) (first last : Token)
  deriving DecidableEq, Repr

def LoopHeader.parse (line : Chars) : Except Fault LoopHeader := do
  let text := String.ofList line
  let header := trim line
  let call := if header.getLast? = some '{' then Call.parse? header.dropLast else none
  match call.filter (·.name = "subiramo") with
  | none => throw ⟨.badLoop text, some text⟩
  | some call =>
    match call.args with
    | [rounds] => return .count rounds
    | [name, first, last] =>
      if isName name then return .range (String.ofList name) first last
      else throw ⟨.badLoopVariable (String.ofList name), some text⟩
    | _ => throw ⟨.badLoopArguments text, some text⟩

def condition? (line : Chars) : Option Token := do
  let rest ← dropLead? "niba".toList (trim line)
  match trimStart rest with
  | '(' :: rest =>
    if rest.getLast? = some '{' then
      let inner := trimEnd rest.dropLast
      if inner.getLast? = some ')' then some (trim inner.dropLast) else none
    else none
  | _ => none

/-- Reads the condition of a conditional's header; it is not empty. -/
def parseCondition (line : Chars) : Except Fault Token :=
  let text := String.ofList line
  match (condition? line).filter (· ≠ []) with
  | some condition => .ok condition
  | none => .error ⟨.badCondition text, some text⟩

def isElseHeader (text : Chars) : Bool :=
  match dropLead? "niba_atariyo".toList (trim text) with
  | some rest => trimStart rest = ['{']
  | none => false

/-- Reads the expression of a return, which may be empty. -/
def parseReturn (line : Chars) : Except Fault Token :=
  let text := String.ofList line
  match dropLead? "garura".toList (stripSemicolon (trim line)) with
  | some rest =>
    if rest.head?.any isNamePart then .error ⟨.badReturn text, some text⟩ else .ok (trim rest)
  | none => .error ⟨.badReturn text, some text⟩

end Inyandiko
