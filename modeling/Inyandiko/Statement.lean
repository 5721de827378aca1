import Inyandiko.Block
import Inyandiko.Statement.Exchange

/-! Statements. A statement is read from a line and the lines after it: blocks take their bodies
along, and a conditional takes the alternative that follows it. Reading a block of lines gives
its statements in order up to the first one that is malformed. -/
namespace Inyandiko

open Text Source

/-- A statement; the bodies of blocks are kept as lines. -/
inductive Statement
  | define (header : FunctionHeader) (body : List Line)
  | loop (header : LoopHeader) (body : List Line)
  | branch (condition : Token) (body otherwise : List Line)
  | giveBack (expression : Token)
  | takeIn (names : Import)
  | handOut (names : Export)
  | declare (declared : Declaration)
  | assign (assigned : Assignment)
  | command (line : Line)
  deriving DecidableEq, Repr

namespace Statement

/-- Refuses text after a closing brace, unless it is only a semicolon. -/
def rejectTrailing (block : Block) : Except Fault Unit :=
  if stripSemicolon block.trailing = [] then .ok ()
  else .error ⟨.textAfterBlock (String.ofList block.trailing), some (String.ofList block.closing)⟩

/-- The block that a header opens, if nothing follows on its last line. -/
def closedBlock (line header : Line) (following : List Line) : Except Fault Block := do
  let block ← Block.collect line header following
  rejectTrailing block
  return block

/-- The body of the alternative after a conditional's block, and the lines after both. The
alternative begins on the line of the closing brace or on the next one. -/
def otherwise (block : Block) : Except Fault (List Line × List Line) := do
  let trailing := stripSemicolon block.trailing
  if trailing ≠ [] then
    if isElseHeader trailing then
      let other ← closedBlock block.closing (block.closing.drop (block.column + 1)) block.rest
      return (other.body, other.rest)
    else
      throw ⟨.textAfterBlock (String.ofList block.trailing), some (String.ofList block.closing)⟩
  else match block.rest with
    | [] => return ([], [])
    | next :: following =>
      if keyword? next ≠ some .otherwise then return ([], block.rest)
      else if isElseHeader next then
        let other ← closedBlock next next following
        return (other.body, other.rest)
      else
        throw ⟨.badElse (String.ofList next), some (String.ofList next)⟩

/-- Reads the statement of a line; also gives the lines after it. -/
def read (line : Line) (following : List Line) : Except Fault (Statement × List Line) := do
  match keyword? line with
  | some .define =>
    let header ← FunctionHeader.parse line
    let block ← closedBlock line line following
    return (.define header block.body, block.rest)
  | some .loop =>
    let header ← LoopHeader.parse line
    let block ← closedBlock line line following
    return (.loop header block.body, block.rest)
  | some .branch =>
    let condition ← parseCondition line
    let block ← Block.collect line line following
    let (other, rest) ← otherwise block
    return (.branch condition block.body other, rest)
  | some .otherwise => throw ⟨.strayElse, some (String.ofList line)⟩
  | some .giveBack => return (.giveBack (← parseReturn line), following)
  | some .takeIn => return (.takeIn (← Import.parse line), following)
  | some .handOut => return (.handOut (← Export.parse line), following)
  | some .letBinding | some .constBinding =>
    match Declaration.parse? line with
    | some declared => return (.declare declared, following)
    | none => throw ⟨.badDeclaration (String.ofList line), some (String.ofList line)⟩
  | none =>
    match Assignment.parse? line with
    | some assigned => return (.assign assigned, following)
    | none => return (.command line, following)

/-- A statement of a block with its line, or what is wrong with it. -/
structure Item where
  line : Line
  statement : Except Fault Statement

def isFiller (line : Line) : Bool := line = [] || line = ['{'] || line = ['}']

/-- The statements of at most `count` lines; none is read after a malformed one. -/
def itemsUpTo : Nat → List Line → List Item
  | 0, _ => []
  | _, [] => []
  | count + 1, line :: following =>
    if isFiller line then itemsUpTo count following
    else match read line following with
      | .error fault => [⟨line, .error fault⟩]
      | .ok (statement, rest) => ⟨line, .ok statement⟩ :: itemsUpTo count rest

/-- The statements of a block of lines. Each takes a line at least. -/
def items (lines : List Line) : List Item := itemsUpTo lines.length lines

end Statement

end Inyandiko
