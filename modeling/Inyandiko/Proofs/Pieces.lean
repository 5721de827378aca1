import Inyandiko.Proofs.Discipline.Level
import Inyandiko.Proofs.Trim

/-! Where the lines of statements come from. Every line of a block is a trimmed piece of one of the lines
that the block was read from, so the lines of all statements of a script, however deep inside blocks, are
pieces of the script's own lines, and so are the lines that are looked at to read them. -/
namespace Inyandiko

open Text Source

namespace Source

/-- A trimmed text that stands somewhere in one of some lines. -/
structure Piece (lines : List Line) (text : Line) : Prop where
  trimmed : Trimmed text
  inside : ∃ line ∈ lines, text <:+: line

/-- Lines all of which are pieces of some others. -/
def Pieces (lines block : List Line) : Prop := ∀ line ∈ block, Piece lines line

variable {lines : List Line}

private theorem Piece.trim {line text : Line} (piece : Piece lines line) (part : text <:+: line) :
    Piece lines (trim text) := by
  obtain ⟨whole, member, inside⟩ := piece.inside
  exact ⟨trimmed_trim text, whole, member, (isInfix_trim text).trans (part.trans inside)⟩

theorem pieces_lines (source : Chars) : Pieces (Source.lines source) (Source.lines source) := by
  intro line member
  refine ⟨?_, line, member, List.infix_refl line⟩
  obtain ⟨raw, -, rfl⟩ := List.mem_map.1 (List.mem_filter.1 member).1
  exact trimmed_trim _

end Source

/-- A block whose lines, and the lines after it, are pieces of some lines. -/
structure Block.Within (lines : List Line) (block : Block) : Prop where
  body : Pieces lines block.body
  closing : Piece lines block.closing
  rest : Pieces lines block.rest

section Blocks

variable {lines following : List Line}

private theorem Block.within_collectOpen (pieces : Pieces lines following) {depth : Int} {block : Block}
    (collected : collectOpen depth following = some block) : block.Within lines := by
  induction following generalizing depth block with
  | nil => cases collected
  | cons line following ih =>
    have own : Piece lines line := pieces line List.mem_cons_self
    have others : Pieces lines following := fun other member => pieces other (List.mem_cons_of_mem _ member)
    simp only [collectOpen] at collected
    split at collected
    · rename_i column closed
      cases collected
      refine ⟨fun other member => ?_, own, others⟩
      dsimp only at member
      -- the text before the closing brace is the last line of the body
      split at member
      · cases member
      · rw [List.mem_singleton.1 member]
        exact own.trim (List.take_prefix column line).isInfix
    · obtain ⟨inner, found, rfl⟩ := Option.map_eq_some_iff.mp collected
      have within := ih others found
      refine { within with body := fun other member => ?_ }
      rcases List.mem_cons.1 member with rfl | member
      · exact own
      · exact within.body other member

private theorem Block.within_collect (pieces : Pieces lines following) {line header : Line} {block : Block}
    (collected : collect line header following = .ok block) : block.Within lines := by
  unfold collect at collected
  dsimp only at collected
  split at collected
  · cases collected
  · split at collected
    · rename_i found
      cases collected
      exact within_collectOpen pieces found
    · cases collected

namespace Statement

private theorem within_closedBlock (pieces : Pieces lines following) {line header : Line} {block : Block}
    (collected : closedBlock line header following = .ok block) : block.Within lines := by
  obtain ⟨found, read, closed⟩ := ok_of_bind collected
  obtain ⟨_, -, same⟩ := ok_of_bind closed
  cases same
  exact Block.within_collect pieces read

private theorem pieces_otherwise {block : Block} (within : block.Within lines) {other rest : List Line}
    (read : otherwise block = .ok (other, rest)) : Pieces lines other ∧ Pieces lines rest := by
  have closed {line header : Line} {following : List Line} (pieces : Pieces lines following)
      (read : (do
        let found ← closedBlock line header following
        return (found.body, found.rest)) = .ok (other, rest)) : Pieces lines other ∧ Pieces lines rest := by
    obtain ⟨found, collected, same⟩ := ok_of_bind read
    cases same
    have within := within_closedBlock pieces collected
    exact ⟨within.body, within.rest⟩
  unfold otherwise at read
  dsimp only at read
  split at read
  · split at read
    · exact closed within.rest read
    · cases read
  · have pieces := within.rest
    split at read
    · cases read
      exact ⟨by simp [Pieces], by simp [Pieces]⟩
    · rename_i next following left
      split at read
      · cases read
        exact ⟨by simp [Pieces], pieces⟩
      · split at read
        · rw [left] at pieces
          exact closed (fun line member => pieces line (List.mem_cons_of_mem _ member)) read
        · cases read

/-- What is read from a line and the lines after it: blocks and left lines consist of pieces, and a
command is the line itself. -/
structure Drawn (lines : List Line) (line : Line) (statement : Statement) (rest : List Line) : Prop where
  blocks : ∀ block ∈ statement.blocks, Pieces lines block
  rest : Pieces lines rest
  command (other : Line) : statement = .command other → other = line

theorem drawn_read (pieces : Pieces lines following) {line : Line} {statement : Statement} {rest : List Line}
    (found : read line following = .ok (statement, rest)) : Drawn lines line statement rest := by
  have simple {statement : Statement} (none : statement.blocks = [])
      (command : ∀ other, statement = .command other → other = line) : Drawn lines line statement following :=
    ⟨by simp [none], pieces, command⟩
  unfold read at found
  split at found
  · obtain ⟨header, -, found⟩ := ok_of_bind found
    obtain ⟨block, collected, found⟩ := ok_of_bind found
    cases found
    have within := within_closedBlock pieces collected
    exact ⟨by simpa [Statement.blocks] using within.body, within.rest, by simp⟩
  · obtain ⟨header, -, found⟩ := ok_of_bind found
    obtain ⟨block, collected, found⟩ := ok_of_bind found
    cases found
    have within := within_closedBlock pieces collected
    exact ⟨by simpa [Statement.blocks] using within.body, within.rest, by simp⟩
  · obtain ⟨condition, -, found⟩ := ok_of_bind found
    obtain ⟨block, collected, found⟩ := ok_of_bind found
    obtain ⟨⟨other, left⟩, alternative, found⟩ := ok_of_bind found
    cases found
    have within := Block.within_collect pieces collected
    obtain ⟨another, later⟩ := pieces_otherwise within alternative
    exact ⟨by simpa [Statement.blocks] using ⟨within.body, another⟩, later, by simp⟩
  · cases found
  · obtain ⟨expression, -, found⟩ := ok_of_bind found
    cases found
    exact simple rfl (by simp)
  · obtain ⟨names, -, found⟩ := ok_of_bind found
    cases found
    exact simple rfl (by simp)
  · obtain ⟨names, -, found⟩ := ok_of_bind found
    cases found
    exact simple rfl (by simp)
  all_goals
    split at found <;> cases found
    exact simple rfl (by simp)
  exact simple rfl (by simp)

theorem Examines.piece {line text : Line} (examined : Examines line following text) (own : Piece lines line)
    (pieces : Pieces lines following) : Piece lines text := by
  cases examined with
  | header => exact own
  | closing collected => exact (Block.within_collect pieces collected).closing
  | @alternative block next rest collected left begins =>
    exact (Block.within_collect pieces collected).rest text (left ▸ List.mem_cons_self)
  | closingSame collected follows =>
    exact (Block.within_collect (Block.within_collect pieces collected).rest follows).closing
  | @closingNext block other next rest collected left begins follows =>
    have later : Pieces lines (next :: rest) := left ▸ (Block.within_collect pieces collected).rest
    exact (Block.within_collect (fun line member => later line (List.mem_cons_of_mem _ member)) follows).closing

/-- Where a statement stands: its line and the lines after it. -/
structure Place where
  line : Line
  following : List Line

/-- The statement that stands at a place. -/
def Place.item (place : Place) : Item := ⟨place.line, (read place.line place.following).map Prod.fst⟩

/-- The places of the statements of at most `count` lines. -/
def placesUpTo : Nat → List Line → List Place
  | 0, _ => []
  | _, [] => []
  | count + 1, line :: following =>
    if isFiller line then placesUpTo count following
    else ⟨line, following⟩ :: match read line following with
      | .error _ => []
      | .ok (_, rest) => placesUpTo count rest

/-- The places of the statements of a block of lines. -/
def places (lines : List Line) : List Place := placesUpTo lines.length lines

theorem items_eq_places (lines : List Line) : items lines = (places lines).map Place.item := by
  unfold items places
  generalize lines.length = count
  induction count generalizing lines with
  | zero => rfl
  | succ count ih =>
    cases lines with
    | nil => rfl
    | cons line following =>
      rw [itemsUpTo,placesUpTo]
      split
      · exact ih following
      · cases found : read line following with
        | error fault => simp [Place.item,found,Except.map]
        | ok taken => simp [Place.item,found,Except.map,ih taken.2]

theorem pieces_places {block : List Line} (pieces : Pieces lines block) {place : Place}
    (member : place ∈ places block) : Piece lines place.line ∧ Pieces lines place.following := by
  unfold places at member
  generalize block.length = count at member
  induction count generalizing block with
  | zero => cases member
  | succ count ih =>
    cases block with
    | nil => cases member
    | cons line following =>
      have others : Pieces lines following := fun other among => pieces other (List.mem_cons_of_mem _ among)
      rw [placesUpTo] at member
      split at member
      · exact ih others member
      · rcases List.mem_cons.1 member with rfl | member
        · exact ⟨pieces line List.mem_cons_self, others⟩
        · cases found : read line following with
          | error fault =>
            rw [found] at member
            cases member
          | ok taken =>
            rw [found] at member
            exact ih (drawn_read others found).rest member

end Statement

end Blocks

end Inyandiko
