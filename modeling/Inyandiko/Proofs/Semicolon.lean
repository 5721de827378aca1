import Inyandiko.Proofs.Program.Reading

/-! Semicolons at the ends of lines. A line that is a statement as a whole is read in the same way with a
semicolon behind it. To compare scripts whose lines have semicolons in different places, all of these are
tidied away. -/
namespace Inyandiko

open Text Source

/-- Whether a keyword begins a line that opens a block. -/
def Keyword.hasBlock : Keyword → Bool
  | .define | .loop | .branch | .otherwise => true
  | .giveBack | .takeIn | .handOut | .letBinding | .constBinding => false

namespace Source

/-- Whether a line may be given a semicolon: it has none, is more than a brace and opens no block by a
keyword. -/
def isSimple (line : Line) : Bool :=
  !Statement.isFiller line && (line.getLast? ≠ some ';' && !(keyword? line).any Keyword.hasBlock)

/-- Lines, and the same lines after some of the simple ones are given semicolons, behind any number of
spaces. -/
inductive Ended : List Line → List Line → Prop
  | nil : Ended [] []
  | keep (line : Line) {lines others : List Line} (rest : Ended lines others) :
      Ended (line :: lines) (line :: others)
  | close {line : Line} (simple : isSimple line = true) (gap : Nat) {lines others : List Line}
      (rest : Ended lines others) : Ended (line :: lines) ((line ++ (spaces gap ++ [';'])) :: others)

/-- A line without its semicolon, if what is left is simple. -/
def tidy (line : Line) : Line :=
  if line.head?.any isBlank = false ∧ isSimple (stripSemicolon line) = true then stripSemicolon line else line

/-- Blanks and a semicolon. -/
structure Closing (text : Chars) : Prop where
  shape : ∃ pad, pad.all isBlank = true ∧ text = pad ++ [';']

/-- A simple line and the same line with a semicolon. -/
structure Closes (line other : Line) : Prop where
  simple : isSimple line = true
  trimmed : Trimmed line
  closed : ∃ closing, Closing closing ∧ other = line ++ closing

end Source

namespace Text

private theorem foldl_braceless {places : List Spot} (braceless : ∀ spot ∈ places, spot.char ≠ '{' ∧ spot.char ≠ '}')
    (total : Int) :
    places.foldl (fun total spot =>
      if spot.char = '{' then total + 1 else if spot.char = '}' then total - 1 else total) total = total := by
  induction places with
  | nil => rfl
  | cons spot places ih =>
    obtain ⟨opening, closing⟩ := braceless spot List.mem_cons_self
    rw [List.foldl_cons,if_neg opening,if_neg closing]
    exact ih fun other member => braceless other (List.mem_cons_of_mem _ member)

end Text

namespace Block

private theorem effect_append {places more : List Spot} (braceless : ∀ spot ∈ more, spot.char ≠ '{' ∧ spot.char ≠ '}')
    (depth : Int) : effect depth (places ++ more) = effect depth places := by
  induction places generalizing depth with
  | nil =>
    rw [List.nil_append]
    induction more with
    | nil => rfl
    | cons spot more ih =>
      obtain ⟨opening, closing⟩ := braceless spot List.mem_cons_self
      have passed : effect depth (spot :: more) = effect depth more := by rw [effect,if_neg opening,if_neg closing]
      rw [passed]
      exact ih fun other member => braceless other (List.mem_cons_of_mem _ member)
  | cons spot places ih => simp only [List.cons_append,effect,ih]

private theorem effect_extend (more : Chars) (places : List Spot) (depth : Int) :
    effect depth (places.map (Spot.extend more)) = effect depth places := by
  induction places generalizing depth with
  | nil => rfl
  | cons spot places ih => simp only [List.map_cons,effect,Spot.extend,ih]

private theorem lt_of_effect {line : Line} {depth : Int} {column : Nat}
    (closes : effect depth (spots line) = .closes column) :
    column < line.length := by
  have found : ∃ spot ∈ spots line, spot.index = column := by
    generalize spots line = places at closes
    induction places generalizing depth with
    | nil => cases closes
    | cons spot places ih =>
      have later {depth : Int} (closes : effect depth places = .closes column) :
          ∃ other ∈ spot :: places, other.index = column := by
        obtain ⟨other, member, same⟩ := ih closes
        exact ⟨other, List.mem_cons_of_mem _ member, same⟩
      rw [effect] at closes
      split at closes
      · exact later closes
      · split at closes
        · split at closes
          · cases closes
            exact ⟨spot, List.mem_cons_self, rfl⟩
          · exact later closes
        · exact later closes
  obtain ⟨spot, member, rfl⟩ := found
  have bounds := Scan.index_bounds member
  simpa using bounds.2

end Block

namespace Source.Closing

variable {closing : Chars} (close : Closing closing)
include close

private theorem nonempty : closing ≠ [] := by
  obtain ⟨pad, -, rfl⟩ := close.shape
  exact List.append_ne_nil_of_right_ne_nil pad (List.cons_ne_nil _ _)

private theorem last (text : Chars) : (text ++ closing).getLast? = some ';' := by
  obtain ⟨pad, -, rfl⟩ := close.shape
  rw [← List.append_assoc,List.getLast?_concat]

private theorem mem {c : Char} (member : c ∈ closing) : isBlank c = true ∨ c = ';' := by
  obtain ⟨pad, blank, rfl⟩ := close.shape
  rcases List.mem_append.mp member with inside | last
  · exact .inl (List.all_eq_true.mp blank c inside)
  · exact .inr (List.mem_singleton.mp last)

private theorem ne_of_mem {c other : Char} (member : c ∈ closing) (solid : isBlank other = false)
    (apart : other ≠ ';') :
    c ≠ other := by
  rcases close.mem member with blank | rfl
  · exact ne_of_isBlank blank solid
  · exact apart.symm

private theorem stops : closing.head?.any isNamePart = false := by
  cases found : closing.head? with
  | none => rfl
  | some c =>
    cases part : isNamePart c with
    | false => exact part
    | true =>
      rcases close.mem (List.mem_of_mem_head? found) with blank | rfl
      · rw [isBlank_of_isWordChar (by simp [isWordChar,part])] at blank
        cases blank
      · cases part

/-- The semicolon is dropped, and then the blanks before it. -/
theorem stripSemicolon_trim (text : Chars) : stripSemicolon (trim (text ++ closing)) = trim text := by
  obtain ⟨pad, blank, rfl⟩ := close.shape
  have shown : trim (text ++ (pad ++ [';'])) = trimStart (text ++ pad) ++ [';'] := by
    rw [trim,← List.append_assoc,trimStart_concat (by decide),trimEnd_of_last]
    rw [List.getLast?_concat]
    decide
  rw [shown,stripSemicolon,if_pos List.getLast?_concat,List.dropLast_concat,trim,
    trimStart_of_first (first_trimStart _),← trim,trim_blanks blank]

private theorem braceless {scan : Scan} : ∀ spot ∈ scan.spots closing, spot.char ≠ '{' ∧ spot.char ≠ '}' := by
  intro spot member
  obtain ⟨before, eq⟩ := mem_spots member
  have inside : spot.char ∈ closing := by
    rw [eq]
    simp
  exact ⟨close.ne_of_mem inside (by decide) (by decide), close.ne_of_mem inside (by decide) (by decide)⟩

private theorem effect (depth : Int) (line : Line) :
    Block.effect depth (spots (line ++ closing)) = Block.effect depth (spots line) := by
  rw [spots,Scan.spots_append,Block.effect_append close.braceless,Block.effect_extend]
  rfl

private theorem braceDelta (line : Line) : braceDelta (line ++ closing) = braceDelta line := by
  rw [Text.braceDelta,Text.braceDelta,spots,Scan.spots_append,List.foldl_append,foldl_braceless close.braceless,
    List.foldl_map]
  rfl

private theorem leadingName? (line : Line) (nonempty : line ≠ []) :
    (leadingName? (line ++ closing)).map Prod.fst = (leadingName? line).map Prod.fst := by
  cases line with
  | nil => exact absurd rfl nonempty
  | cons c rest =>
    rw [List.cons_append,Text.leadingName?,Text.leadingName?]
    split
    · simp only [Option.map_some,takeWhile_append_of_stops close.stops]
    · rfl

end Source.Closing

/-- Lines that are read in the same way, whatever is before and after them. -/
structure Source.Reads (line other : Line) : Prop where
  filler : Statement.isFiller other = Statement.isFiller line
  keyword : keyword? other = keyword? line
  text : stripSemicolon (trim other) = stripSemicolon (trim line)
  header : (keyword? line).any Keyword.hasBlock = true → other = line
  effect (depth : Int) : Block.effect depth (spots other) = Block.effect depth (spots line)
  -- the text around the brace that closes a block
  leading {depth : Int} {column : Nat} : Block.effect depth (spots line) = .closes column →
    other.take column = line.take column
  trailing {depth : Int} {column : Nat} : Block.effect depth (spots line) = .closes column →
    stripSemicolon (trim (other.drop (column + 1))) = stripSemicolon (trim (line.drop (column + 1)))
  opened {depth : Int} {column : Nat} : Block.effect depth (spots line) = .closes column →
    braceDelta (other.drop (column + 1)) = braceDelta (line.drop (column + 1))

namespace Source

private theorem Reads.refl (line : Line) : Reads line line :=
  ⟨rfl, rfl, rfl, fun _ => rfl, fun _ => rfl, fun _ => rfl, fun _ => rfl, fun _ => rfl⟩

section Simple

variable {line : Line} (simple : isSimple line = true)
include simple

private theorem filler_of_simple : Statement.isFiller line = false := by
  simp only [isSimple,Bool.and_eq_true,Bool.not_eq_true'] at simple
  exact simple.1

private theorem nonempty_of_simple : line ≠ [] := by
  rintro rfl
  cases simple

private theorem unended_of_simple : line.getLast? ≠ some ';' := by
  simp only [isSimple,Bool.and_eq_true,decide_eq_true_eq] at simple
  exact simple.2.1

private theorem blockless_of_simple : (keyword? line).any Keyword.hasBlock = false := by
  simp only [isSimple,Bool.and_eq_true,Bool.not_eq_true'] at simple
  exact simple.2.2

private theorem stripSemicolon_simple : stripSemicolon line = line := stripSemicolon_eq (unended_of_simple simple)

end Simple

namespace Closes

variable {line other : Line} (closes : Closes line other)
include closes

private theorem keyword : keyword? other = keyword? line := by
  obtain ⟨closing, close, rfl⟩ := closes.closed
  have names := close.leadingName? line (nonempty_of_simple closes.simple)
  have shape (text : Line) : keyword? text = ((Text.leadingName? text).map Prod.fst).bind fun name =>
      Keyword.all.find? fun keyword => keyword.spelling = String.ofList name := by
    rw [keyword?]
    cases Text.leadingName? text <;> rfl
  rw [shape,shape,names]

private theorem filler : Statement.isFiller other = false := by
  obtain ⟨closing, close, rfl⟩ := closes.closed
  have last := close.last line
  have differs (c : Char) (apart : c ≠ ';') : line ++ closing ≠ [c] := by
    intro same
    rw [same] at last
    exact apart (Option.some.inj last)
  have nonempty : line ++ closing ≠ [] := List.append_ne_nil_of_right_ne_nil _ close.nonempty
  simp [Statement.isFiller,nonempty,differs '{' (by decide),differs '}' (by decide)]

private theorem stripSemicolon_drop (column : Nat) : stripSemicolon (trim (line.drop column)) = trim
    (line.drop column) := by
  have last : (line.drop column).getLast?.any isBlank = false := by
    rw [List.getLast?_drop]
    split
    · rfl
    · exact closes.trimmed.last
  rw [trim_of_last last]
  refine stripSemicolon_eq fun ended => unended_of_simple closes.simple ?_
  obtain ⟨front, eq⟩ := (isSuffix_trimStart _).trans (List.drop_suffix column line)
  rw [← eq,List.getLast?_append,ended]
  rfl

private theorem reads : Reads line other := by
  obtain ⟨closing, close, eq⟩ := closes.closed
  have behind {depth : Int} {column : Nat} (brace : Block.effect depth (spots line) = .closes column) :
      other.drop (column + 1) = line.drop (column + 1) ++ closing := by
    rw [eq,List.drop_append_of_le_length (Block.lt_of_effect brace)]
  refine ⟨?_, closes.keyword, ?_, ?_, ?_, ?_, ?_, ?_⟩
  · rw [closes.filler,filler_of_simple closes.simple]
  · rw [eq,close.stripSemicolon_trim,closes.trimmed.trim_eq,stripSemicolon_simple closes.simple]
  · intro block
    rw [blockless_of_simple closes.simple] at block
    cases block
  · intro depth
    rw [eq,close.effect]
  · intro depth column brace
    rw [eq,List.take_append_of_le_length (Nat.le_of_lt (Block.lt_of_effect brace))]
  · intro depth column brace
    rw [behind brace,close.stripSemicolon_trim,closes.stripSemicolon_drop]
  · intro depth column brace
    rw [behind brace,close.braceDelta]

end Closes

section Tidy

private theorem tidy_simple {line : Line} (simple : isSimple line = true) : tidy line = line := by
  rw [tidy,stripSemicolon_simple simple,ite_self]

private theorem Closes.tidy_eq {line other : Line} (closes : Closes line other) : tidy other = line := by
  obtain ⟨closing, close, rfl⟩ := closes.closed
  have nonempty := nonempty_of_simple closes.simple
  have stripped : stripSemicolon (line ++ closing) = line := by
    have whole : Trimmed (line ++ closing) := by
      refine ⟨first_append nonempty closes.trimmed.first _, ?_⟩
      rw [close.last]
      decide
    have shown := close.stripSemicolon_trim line
    rwa [whole.trim_eq,closes.trimmed.trim_eq] at shown
  rw [tidy,if_pos,stripped]
  exact ⟨first_append nonempty closes.trimmed.first _, by rw [stripped,closes.simple]⟩

private theorem tidy_cases (line : Line) : tidy line = line ∨ Closes (tidy line) line := by
  by_cases simple : line.head?.any isBlank = false ∧ isSimple (stripSemicolon line) = true
  case neg => exact .inl (if_neg simple)
  by_cases last : line.getLast? = some ';'
  case neg =>
    refine .inl ?_
    rw [tidy,if_pos simple,stripSemicolon_eq last]
  obtain ⟨front, rfl⟩ := List.getLast?_eq_some_iff.mp last
  obtain ⟨first, simple⟩ := simple
  refine .inr ?_
  have stripped : stripSemicolon (front ++ [';']) = trim front := by
    rw [stripSemicolon,if_pos last,List.dropLast_concat]
  have eq : tidy (front ++ [';']) = trim front := by rw [tidy,if_pos ⟨first, simple⟩,stripped]
  rw [stripped] at simple
  have begins : front.head?.any isBlank = false := by
    cases front with
    | nil => rfl
    | cons c rest => exact first
  obtain ⟨pad, blank, whole⟩ := exists_trimEnd front
  rw [eq]
  refine ⟨simple, trimmed_trim front, pad ++ [';'], ⟨pad, blank, rfl⟩, ?_⟩
  rw [trim,trimStart_of_first begins,← List.append_assoc,← whole]

theorem reads_tidy (line : Line) : Reads (tidy line) line := by
  rcases tidy_cases line with same | closes
  · rw [same]
    exact .refl line
  · exact closes.reads

theorem tidy_tidy (line : Line) : tidy (tidy line) = tidy line := by
  rcases tidy_cases line with same | closes
  · rw [same,same]
  · exact tidy_simple closes.simple

end Tidy

namespace Ended

variable {lines others : List Line} (ended : Ended lines others)
include ended

theorem length : others.length = lines.length := by
  induction ended with
  | nil => rfl
  | keep line rest ih => rw [List.length_cons,List.length_cons,ih]
  | close simple gap rest ih => rw [List.length_cons,List.length_cons,ih]

/-- Lines with semicolons in different places are the same when tidied. -/
theorem tidied (settled : ∀ line ∈ lines, Settled line) : others.map tidy = lines.map tidy := by
  induction ended with
  | nil => rfl
  | keep line rest ih =>
    rw [List.map_cons,List.map_cons,ih fun other member => settled other (List.mem_cons_of_mem _ member)]
  | @close line simple gap lines others rest ih =>
    have closes : Closes line (line ++ (spaces gap ++ [';'])) :=
      ⟨simple, (settled line List.mem_cons_self).trimmed, _, ⟨_, all_isBlank_spaces gap, rfl⟩, rfl⟩
    rw [List.map_cons,List.map_cons,closes.tidy_eq,tidy_simple simple,
      ih fun other member => settled other (List.mem_cons_of_mem _ member)]

/-- Lines that are given semicolons still are the lines of a source. -/
theorem settled (settled : ∀ line ∈ lines, Settled line) : ∀ line ∈ others, Settled line := by
  induction ended with
  | nil => exact settled
  | keep line rest ih =>
    obtain ⟨first, later⟩ := List.forall_mem_cons.mp settled
    exact List.forall_mem_cons.mpr ⟨first, ih later⟩
  | @close line simple gap lines others rest ih =>
    obtain ⟨first, later⟩ := List.forall_mem_cons.mp settled
    refine List.forall_mem_cons.mpr ⟨?_, ih later⟩
    have plain : ∀ c ∈ spaces gap ++ [';'], c = ' ' ∨ c = ';' := by
      intro c member
      rcases List.mem_append.mp member with space | last
      · exact .inl (List.mem_replicate.mp space).2
      · exact .inr (List.mem_singleton.mp last)
    refine ⟨List.append_ne_nil_of_left_ne_nil first.nonempty _,
      ⟨first_append first.nonempty first.trimmed.first _, ?_⟩, ?_, first.uncommented.append ?_⟩
    · rw [← List.append_assoc,List.getLast?_concat]
      decide
    · intro c member
      rcases List.mem_append.mp member with before | behind
      · exact first.oneLine c before
      · rcases plain c behind with rfl | rfl <;> decide
    · intro member
      rcases plain _ member with same | same <;> exact absurd same (by decide)

end Ended

end Source

end Inyandiko
