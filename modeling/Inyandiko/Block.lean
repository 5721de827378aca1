import Inyandiko.Fault
import Inyandiko.Source

/-! Blocks. A block is opened by the braces that its header leaves open and ends at the first
brace outside quotes that closes the last of them. Its body is the lines between, with the text
before the closing brace as a last line when there is any. -/
namespace Inyandiko

open Text Source

structure Block where
  body : List Line
  closing : Line
  column : Nat
  rest : List Line
  deriving DecidableEq, Repr

namespace Block

def trailing (block : Block) : Line := trim (block.closing.drop (block.column + 1))

/-- What a line does to the number of open braces: it closes the last one at some spot, or
leaves some number of them open. -/
inductive Effect
  | closes (column : Nat)
  | leaves (depth : Int)
  deriving DecidableEq, Repr

def effect (depth : Int) : List Spot → Effect
  | [] => .leaves depth
  | spot :: spots =>
    if spot.char = '{' then effect (depth + 1) spots
    else if spot.char = '}' then
      if depth - 1 = 0 then .closes spot.index else effect (depth - 1) spots
    else effect depth spots

/-- Collects lines until the open braces are closed; `none` when they never are. -/
def collectOpen (depth : Int) : List Line → Option Block
  | [] => none
  | line :: rest =>
    match effect depth (spots line) with
    | .closes column =>
      let leading := trim (line.take column)
      some { body := if leading = [] then [] else [leading], closing := line, column, rest }
    | .leaves depth =>
      (collectOpen depth rest).map fun block => { block with body := line :: block.body }

/-- The block that a header opens, the header being the text of `line` from some column on. -/
def collect (line header : Line) (following : List Line) : Except Fault Block :=
  let text := String.ofList line
  let depth := braceDelta header
  if depth ≤ 0 then .error ⟨.expectedBlock text, some text⟩
  else match collectOpen depth following with
    | some block => .ok block
    | none => .error ⟨.unclosedBlock text, some text⟩

/-- The place that an index stands for in something of a given length: an index below zero counts
from the end. -/
def place (length : Nat) (index : Int) : Int := if index < 0 then length + index else index

/-- The lines after the one at an index. After an index that counts from the end come the lines up
to the end and then all lines from the first. -/
def following (lines : List Line) (start : Int) : List Line :=
  let after := lines.drop (place lines.length start + 1).toNat
  if start < 0 then after ++ lines else after

/-- The block opened by the line at an index from a column on, and the index of the line that
closes it. -/
def collectAt (lines : List Line) (start column : Int) : Except Halt (Block × Int) :=
  let index := place lines.length start
  match if index < 0 then none else lines[index.toNat]? with
  | none => .error (.crash .indexOutOfRange)
  | some line =>
    let after := following lines start
    match collect line (line.drop (place line.length column).toNat) after with
    | .ok block => .ok (block, start + (after.length - block.rest.length))
    | .error fault => .error (.fault fault)

end Block

end Inyandiko
