import Inyandiko.Proofs.Discipline.Level
import Inyandiko.Proofs.Scan

/-! The sizes of texts. What a statement evaluates or runs is smaller than the lines that it is read
from, so tokens, blocks and the places in a list of lines all go down. -/
namespace Inyandiko

open Text Source

namespace Text

private theorem trimStart_sublist (text : Chars) : (trimStart text).Sublist text :=
  (List.dropWhile_suffix _).sublist

private theorem trimEnd_sublist (text : Chars) : (trimEnd text).Sublist text := by
  have reversed := (trimStart_sublist text.reverse).reverse
  rwa [List.reverse_reverse] at reversed

theorem trim_sublist (text : Chars) : (trim text).Sublist text :=
  (trimEnd_sublist _).trans (trimStart_sublist text)

theorem length_trim_le (text : Chars) : (trim text).length ≤ text.length := (trim_sublist text).length_le

theorem length_leadingName? {text name rest : Chars} (read : leadingName? text = some (name, rest)) :
    rest.length < text.length := by
  cases text with
  | nil => cases read
  | cons c more =>
    simp only [leadingName?] at read
    split at read
    · cases read
      have shorter := (List.dropWhile_suffix (l := more) isNamePart).length_le
      rw [List.length_cons]
      omega
    · cases read

private theorem length_dropLead? {lead text rest : Chars} (dropped : dropLead? lead text = some rest) :
    lead.length + rest.length = text.length := by
  induction lead generalizing text with
  | nil =>
    cases dropped
    exact Nat.zero_add _
  | cons c lead ih =>
    cases text with
    | nil => cases dropped
    | cons d text =>
      simp only [dropLead?] at dropped
      split at dropped
      · have same := ih dropped
        rw [List.length_cons,List.length_cons]
        omega
      · cases dropped

end Text

private theorem length_dropBlanks? {text rest : Chars} (dropped : dropBlanks? text = some rest) :
    rest.length < text.length := by
  cases text with
  | nil => cases dropped
  | cons c more =>
    simp only [dropBlanks?] at dropped
    split at dropped
    · cases dropped
      have shorter := (trimStart_sublist more).length_le
      rw [List.length_cons]
      omega
    · cases dropped

private theorem stripSemicolon_sublist (line : Chars) : (stripSemicolon line).Sublist line := by
  unfold stripSemicolon
  split
  · exact (trim_sublist _).trans (List.dropLast_sublist line)
  · exact .refl line

private theorem length_stripped_le (line : Chars) : (stripSemicolon (trim line)).length ≤ line.length :=
  ((stripSemicolon_sublist _).trans (trim_sublist line)).length_le

section Calls

private theorem length_cutAt {start : Nat} {text piece : Chars} {indexes : List Nat}
    (member : piece ∈ cutAt start text indexes) : piece.length ≤ text.length := by
  induction indexes generalizing start text with
  | nil => exact Nat.le_of_eq (congrArg List.length (List.mem_singleton.mp member))
  | cons index indexes ih =>
    rcases List.mem_cons.mp member with rfl | later
    · exact (List.take_sublist _ _).length_le
    · have shorter := ih later
      rw [List.length_drop] at shorter
      omega

private theorem length_splitTopLevel {text piece : Chars} (member : piece ∈ splitTopLevel text) :
    piece.length ≤ text.length := by
  have listed : piece ∈ (cutAt 0 text (topLevelCommas 0 (spots text))).map trim := by
    unfold splitTopLevel at member
    dsimp only at member
    split at member
    · exact (List.dropLast_sublist _).subset member
    · exact member
  obtain ⟨whole, cut, rfl⟩ := List.mem_map.mp listed
  exact Nat.le_trans (length_trim_le whole) (length_cutAt cut)

/-- The arguments of a call are shorter than its text. -/
theorem Call.length_args {line : Chars} {call : Call} (read : Call.parse? line = some call) :
    ∀ arg ∈ call.args, arg.length < line.length := by
  intro arg member
  simp only [Call.parse?,Option.bind_eq_bind,Option.bind_eq_some_iff] at read
  obtain ⟨⟨name, rest⟩, named, read⟩ := read
  split at read
  · split at read
    · cases read
      have within := length_splitTopLevel member
      have nonempty := length_leadingName? named
      have stripped := length_stripped_le line
      rw [List.length_dropLast,List.length_drop] at within
      omega
    · cases read
  · cases read

end Calls

section Lines

private theorem Assignment.length_ofText? {text : Chars} {assigned : Assignment}
    (read : Assignment.ofText? text = some assigned) : assigned.expression.length < text.length := by
  simp only [Assignment.ofText?,Option.bind_eq_bind,Option.bind_eq_some_iff] at read
  obtain ⟨⟨name, rest⟩, named, read⟩ := read
  split at read
  · rename_i value signed
    split at read
    · cases read
    · cases read
      have name := length_leadingName? named
      have sign := (trimStart_sublist rest).length_le
      have short := length_trim_le value
      rw [signed,List.length_cons] at sign
      dsimp only
      omega
  · cases read

private theorem Assignment.length_parse? {line : Chars} {assigned : Assignment}
    (read : Assignment.parse? line = some assigned) : assigned.expression.length < line.length :=
  Nat.lt_of_lt_of_le (Assignment.length_ofText? read) (length_stripped_le line)

private theorem Declaration.length_parse? {line : Chars} {declared : Declaration}
    (read : Declaration.parse? line = some declared) : declared.expression.length < line.length := by
  simp only [Declaration.parse?,Option.bind_eq_bind,Option.bind_eq_some_iff] at read
  obtain ⟨⟨word, rest⟩, named, read⟩ := read
  have within {isConst : Bool}
      (read : ((dropBlanks? rest).bind fun text => (Assignment.ofText? text).bind fun assigned =>
        some (⟨isConst, assigned.name, assigned.expression⟩ : Declaration)) = some declared) :
      declared.expression.length < line.length := by
    simp only [Option.bind_eq_some_iff] at read
    obtain ⟨text, apart, assigned, found, same⟩ := read
    cases same
    have word := length_leadingName? named
    have blanks := length_dropBlanks? apart
    have short := Assignment.length_ofText? found
    have stripped := length_stripped_le line
    dsimp only
    omega
  dsimp only at read
  split at read
  · exact within read
  · split at read
    · exact within read
    · cases read

private theorem LoopHeader.length_parse {line : Chars} {header : LoopHeader} (read : LoopHeader.parse line = .ok header)
    (body : List Line) : ∀ token ∈ (Statement.loop header body).tokens, token.length < line.length := by
  unfold LoopHeader.parse at read
  dsimp only at read
  split at read
  · cases read
  · rename_i call filtered
    have parsed : Call.parse? (trim line).dropLast = some call := by
      obtain ⟨found, -⟩ := Option.filter_eq_some_iff.mp filtered
      split at found
      · exact found
      · cases found
    have shorter (arg : Token) (member : arg ∈ call.args) : arg.length < line.length :=
      Nat.lt_of_lt_of_le (Call.length_args parsed arg member)
        ((List.dropLast_sublist _).trans (trim_sublist line)).length_le
    split at read
    · rename_i rounds args
      cases read
      intro token member
      exact shorter token (args ▸ member)
    · rename_i name first last args
      split at read
      · cases read
        intro token member
        exact shorter token (args ▸ List.mem_cons_of_mem _ member)
      · cases read
    · cases read

private theorem length_condition? {line : Chars} {condition : Token} (read : condition? line = some condition) :
    condition.length < line.length := by
  simp only [condition?,Option.bind_eq_bind,Option.bind_eq_some_iff] at read
  obtain ⟨rest, dropped, read⟩ := read
  split at read
  · rename_i inner opened
    split at read
    · split at read
      · cases read
        have word := length_dropLead? dropped
        have paren := (trimStart_sublist rest).length_le
        have line := length_trim_le line
        have short := length_trim_le (trimEnd inner.dropLast).dropLast
        have closed := ((List.dropLast_sublist (trimEnd inner.dropLast)).trans
          ((trimEnd_sublist _).trans (List.dropLast_sublist inner))).length_le
        rw [opened,List.length_cons] at paren
        omega
      · cases read
    · cases read
  · cases read

private theorem length_parseCondition {line : Chars} {condition : Token}
    (read : parseCondition line = .ok condition) : condition.length < line.length := by
  unfold parseCondition at read
  dsimp only at read
  split at read
  · rename_i found filtered
    cases read
    exact length_condition? (Option.filter_eq_some_iff.mp filtered).1
  · cases read

private theorem length_parseReturn {line : Chars} {expression : Token} (read : parseReturn line = .ok expression) :
    expression.length < line.length := by
  unfold parseReturn at read
  dsimp only at read
  split at read
  · rename_i rest dropped
    split at read
    · cases read
    · cases read
      have word : 6 + rest.length = _ := length_dropLead? dropped
      have stripped := length_stripped_le line
      have short := length_trim_le rest
      omega
  · cases read

private theorem Export.length_parse {line : Chars} {names : Export} (read : Export.parse line = .ok names) :
    ∀ token ∈ (Statement.handOut names).tokens, token.length < line.length := by
  have body : (trim ((stripSemicolon (trim line)).drop "export".length)).length ≤ line.length :=
    Nat.le_trans ((trim_sublist _).trans (List.drop_sublist _ _)).length_le (length_stripped_le line)
  unfold Export.parse at read
  dsimp only at read
  split at read
  · rename_i declared found
    cases read
    intro token member
    rw [List.mem_singleton.mp member]
    exact Nat.lt_of_lt_of_le (Declaration.length_parse? found) body
  · split at read
    · rename_i assigned found
      cases read
      intro token member
      rw [List.mem_singleton.mp member]
      exact Nat.lt_of_lt_of_le (Assignment.length_parse? found) body
    · -- names alone are looked up, not evaluated
      have bare : ∃ pairs, names = .names pairs := by
        split at read
        · split at read
          · obtain ⟨pairs, -, same⟩ := ok_of_bind read
            cases same
            exact ⟨pairs, rfl⟩
          · cases read
        · split at read
          · cases read
            exact ⟨_, rfl⟩
          · cases read
      obtain ⟨pairs, rfl⟩ := bare
      exact nofun

end Lines

/-- The size of some lines: their characters, and one more for each line. -/
def Source.size : List Line → Nat
  | [] => 0
  | line :: lines => line.length + 1 + size lines

namespace Source

@[simp] private theorem size_nil : size [] = 0 := rfl

@[simp] private theorem size_cons (line : Line) (lines : List Line) :
    size (line :: lines) = line.length + 1 + size lines := rfl

private theorem size_le_of_suffix {lines more : List Line} (suffix : lines <:+ more) : size lines ≤ size more := by
  obtain ⟨before, rfl⟩ := suffix
  induction before with
  | nil => exact Nat.le_refl _
  | cons line before ih =>
    rw [List.cons_append,size_cons]
    omega

end Source

section Blocks

private theorem Block.column_lt {depth : Int} {text : Chars} {scan : Scan} {column : Nat}
    (closed : effect depth (scan.spots text) = .closes column) : column < scan.index + text.length := by
  have among (spots : List Spot) (depth : Int) (closed : effect depth spots = .closes column) :
      ∃ spot ∈ spots, spot.index = column := by
    induction spots generalizing depth with
    | nil => cases closed
    | cons spot spots ih =>
      have later (depth : Int) (closed : effect depth spots = .closes column) :
          ∃ other ∈ spot :: spots, other.index = column := by
        obtain ⟨other, member, found⟩ := ih depth closed
        exact ⟨other, List.mem_cons_of_mem _ member, found⟩
      simp only [effect] at closed
      split at closed
      · exact later _ closed
      · split at closed
        · split at closed
          · cases closed
            exact ⟨spot, List.mem_cons_self, rfl⟩
          · exact later _ closed
        · exact later _ closed
  obtain ⟨spot, member, rfl⟩ := among _ depth closed
  exact (Scan.index_bounds member).2

/-- A block and the lines after it are cut out of the lines that it is looked for in. -/
private theorem Block.size_collectOpen {depth : Int} {lines : List Line} {block : Block}
    (collected : collectOpen depth lines = some block) :
    size block.body + size block.rest < size lines ∧ block.rest <:+ lines := by
  induction lines generalizing depth block with
  | nil => cases collected
  | cons line lines ih =>
    simp only [collectOpen] at collected
    split at collected
    · rename_i column closed
      cases collected
      have inside : column < 0 + line.length := column_lt closed
      have short := Nat.le_trans (length_trim_le (line.take column)) (List.length_take_le _ _)
      refine ⟨?_, List.suffix_cons _ _⟩
      dsimp only
      split
      · simp only [size_nil,size_cons]
        omega
      · simp only [size_nil,size_cons]
        omega
    · obtain ⟨inner, found, rfl⟩ := Option.map_eq_some_iff.mp collected
      obtain ⟨smaller, suffix⟩ := ih found
      refine ⟨?_, suffix.trans (List.suffix_cons _ _)⟩
      simp only [size_cons]
      omega

private theorem Block.size_collect {line header : Line} {following : List Line} {block : Block}
    (collected : collect line header following = .ok block) :
    size block.body + size block.rest < size following ∧ block.rest <:+ following := by
  unfold collect at collected
  dsimp only at collected
  split at collected
  · cases collected
  · split at collected
    · rename_i found
      cases collected
      exact size_collectOpen found
    · cases collected

private theorem Statement.size_closedBlock {line header : Line} {following : List Line} {block : Block}
    (collected : closedBlock line header following = .ok block) :
    size block.body + size block.rest < size following ∧ block.rest <:+ following := by
  obtain ⟨found, read, closed⟩ := ok_of_bind collected
  obtain ⟨_, -, same⟩ := ok_of_bind closed
  cases same
  exact Block.size_collect read

private theorem Statement.size_otherwise {block : Block} {other rest : List Line}
    (read : otherwise block = .ok (other, rest)) :
    size other ≤ size block.rest ∧ rest <:+ block.rest := by
  have closed {line header : Line} {following : List Line} {other rest : List Line}
      (read : (do
        let found ← closedBlock line header following
        return (found.body, found.rest)) = .ok (other, rest)) :
      size other ≤ size following ∧ rest <:+ following := by
    obtain ⟨found, collected, same⟩ := ok_of_bind read
    cases same
    obtain ⟨smaller, suffix⟩ := size_closedBlock collected
    exact ⟨by omega, suffix⟩
  unfold otherwise at read
  dsimp only at read
  split at read
  · split at read
    · exact closed read
    · cases read
  · split at read
    · cases read
      exact ⟨Nat.zero_le _, List.nil_suffix⟩
    · rename_i next following lines
      rw [lines]
      split at read
      · cases read
        exact ⟨Nat.zero_le _, lines ▸ List.suffix_refl _⟩
      · split at read
        · obtain ⟨smaller, suffix⟩ := closed read
          exact ⟨by rw [size_cons]; omega, suffix.trans (List.suffix_cons _ _)⟩
        · cases read

end Blocks

namespace Statement

/-- What a statement that is read from a line leaves to be done: the tokens are shorter than the line,
the blocks are cut out of the lines after it, and so are the lines that are left. -/
structure Smaller (line : Line) (following : List Line) (statement : Statement) (rest : List Line) : Prop where
  tokens : ∀ token ∈ statement.tokens, token.length < line.length
  blocks : ∀ block ∈ statement.blocks, size block ≤ size following
  rest : rest <:+ following

private theorem smaller_define {line : Line} {following : List Line} {header : FunctionHeader} {block : Block}
    (collected : closedBlock line line following = .ok block) :
    Smaller line following (.define header block.body) block.rest := by
  obtain ⟨smaller, suffix⟩ := size_closedBlock collected
  refine ⟨nofun, fun body member => ?_, suffix⟩
  rw [List.mem_singleton.mp member]
  omega

private theorem smaller_loop {line : Line} {following : List Line} {header : LoopHeader} {block : Block}
    (parsed : LoopHeader.parse line = .ok header) (collected : closedBlock line line following = .ok block) :
    Smaller line following (.loop header block.body) block.rest := by
  obtain ⟨smaller, suffix⟩ := size_closedBlock collected
  refine ⟨LoopHeader.length_parse parsed block.body, fun body member => ?_, suffix⟩
  rw [List.mem_singleton.mp member]
  omega

private theorem smaller_branch {line : Line} {following : List Line} {condition : Token} {block : Block}
    {other rest : List Line} (parsed : parseCondition line = .ok condition)
    (collected : Block.collect line line following = .ok block) (alternative : otherwise block = .ok (other, rest)) :
    Smaller line following (.branch condition block.body other) rest := by
  obtain ⟨smaller, suffix⟩ := Block.size_collect collected
  obtain ⟨within, later⟩ := size_otherwise alternative
  refine ⟨fun token member => ?_, fun body member => ?_, later.trans suffix⟩
  · rw [List.mem_singleton.mp member]
    exact length_parseCondition parsed
  · rcases List.mem_cons.mp member with rfl | member
    · omega
    · rw [List.mem_singleton.mp member]
      omega

/-- A statement on one line leaves its tokens to be evaluated, and the lines after it. -/
private theorem smaller_simple {line : Line} {following : List Line} {statement : Statement}
    (tokens : ∀ token ∈ statement.tokens, token.length < line.length) (blocks : statement.blocks = []) :
    Smaller line following statement following := by
  refine ⟨tokens, ?_, List.suffix_refl _⟩
  rw [blocks]
  exact nofun

private theorem smaller_single {line : Line} {following : List Line} {statement : Statement} {token : Token}
    (tokens : statement.tokens = [token]) (blocks : statement.blocks = []) (short : token.length < line.length) :
    Smaller line following statement following := by
  refine smaller_simple (fun other member => ?_) blocks
  rw [tokens] at member
  rw [List.mem_singleton.mp member]
  exact short

theorem smaller_read {line : Line} {following : List Line} {statement : Statement} {rest : List Line}
    (found : read line following = .ok (statement, rest)) : Smaller line following statement rest := by
  unfold read at found
  split at found
  · obtain ⟨header, -, found⟩ := ok_of_bind found
    obtain ⟨block, collected, found⟩ := ok_of_bind found
    cases found
    exact smaller_define collected
  · obtain ⟨header, parsed, found⟩ := ok_of_bind found
    obtain ⟨block, collected, found⟩ := ok_of_bind found
    cases found
    exact smaller_loop parsed collected
  · obtain ⟨condition, parsed, found⟩ := ok_of_bind found
    obtain ⟨block, collected, found⟩ := ok_of_bind found
    obtain ⟨⟨other, left⟩, alternative, found⟩ := ok_of_bind found
    cases found
    exact smaller_branch parsed collected alternative
  · cases found
  · obtain ⟨expression, parsed, found⟩ := ok_of_bind found
    cases found
    exact smaller_single rfl rfl (length_parseReturn parsed)
  · obtain ⟨names, -, found⟩ := ok_of_bind found
    cases found
    exact smaller_simple nofun rfl
  · obtain ⟨names, parsed, found⟩ := ok_of_bind found
    cases found
    exact smaller_simple (Export.length_parse parsed) rfl
  all_goals
    split at found
  all_goals
    cases found
  · rename_i parsed
    exact smaller_single rfl rfl (Declaration.length_parse? parsed)
  · rename_i parsed
    exact smaller_single rfl rfl (Declaration.length_parse? parsed)
  · rename_i parsed
    exact smaller_single rfl rfl (Assignment.length_parse? parsed)
  · refine smaller_simple (fun token member => ?_) rfl
    simp only [Statement.tokens] at member
    cases called : Call.parse? line with
    | none => simp [called] at member
    | some call => exact Call.length_args called token (by simpa [called] using member)

/-- The tokens and the blocks of the statements of some lines are smaller than the lines. -/
theorem smaller_items {count : Nat} {lines : List Line} {item : Item} (member : item ∈ itemsUpTo count lines)
    {statement : Statement} (found : item.statement = .ok statement) :
    (∀ token ∈ statement.tokens, token.length < size lines) ∧
      ∀ block ∈ statement.blocks, size block < size lines := by
  induction count generalizing lines with
  | zero => cases member
  | succ count ih =>
    cases lines with
    | nil => cases member
    | cons line following =>
      have later {rest : List Line} (suffix : rest <:+ following) (member : item ∈ itemsUpTo count rest) :
          (∀ token ∈ statement.tokens, token.length < size (line :: following)) ∧
            ∀ block ∈ statement.blocks, size block < size (line :: following) := by
        obtain ⟨tokens, blocks⟩ := ih member
        have less := size_le_of_suffix suffix
        rw [size_cons]
        exact ⟨fun token given => by have := tokens token given; omega,
          fun block given => by have := blocks block given; omega⟩
      simp only [itemsUpTo] at member
      split at member
      · exact later (List.suffix_refl _) member
      · split at member
        · rw [List.mem_singleton.mp member] at found
          cases found
        · rename_i first rest taken
          have smaller := smaller_read taken
          rcases List.mem_cons.mp member with rfl | member
          · cases found
            rw [size_cons]
            exact ⟨fun token given => by have := smaller.tokens token given; omega,
              fun block given => by have := smaller.blocks block given; omega⟩
          · exact later smaller.rest member

end Statement

end Inyandiko
