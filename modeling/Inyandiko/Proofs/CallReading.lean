import Inyandiko.Proofs.Semicolon

/-! Reading calls. A call that is written with any blanks, and perhaps a semicolon behind it, is read back with its
tokens. In the other direction, a line that is read as a call is the name, blanks and a text in parentheses, and the
arguments make up that text. -/
namespace Inyandiko

open Text Source

/-- The lines that have only blanks around a text, and perhaps a semicolon behind it. -/
structure Surrounds (line text : Chars) : Prop where
  shape : ∃ before closing after : Chars, before.all isBlank = true ∧ after.all isBlank = true ∧
    (closing = [] ∨ Closing closing) ∧ line = before ++ text ++ closing ++ after

theorem Surrounds.stripSemicolon_trim {line text : Chars} (surrounds : Surrounds line text) (trimmed : Trimmed text)
    (unended : text.getLast? ≠ some ';') : stripSemicolon (trim line) = text := by
  obtain ⟨before, closing, after, blankBefore, blankAfter, ending, rfl⟩ := surrounds.shape
  have left : trim (before ++ text) = text := by
    have padded := trimmed.trim_pad blankBefore (show ([] : Chars).all isBlank = true from rfl)
    rwa [List.append_nil] at padded
  rw [trim_blanks blankAfter]
  rcases ending with rfl | close
  · rw [List.append_nil,left,stripSemicolon_eq unended]
  · rw [close.stripSemicolon_trim,left]

private theorem surrounds_stripSemicolon (line : Chars) : Surrounds line (stripSemicolon (trim line)) := by
  obtain ⟨before, after, blankBefore, blankAfter, eq⟩ := exists_pads line
  rw [stripSemicolon]
  split
  · rename_i ended
    obtain ⟨front, shown⟩ := List.getLast?_eq_some_iff.mp ended
    obtain ⟨first, last, blankFirst, blankLast, inside⟩ := exists_pads front
    refine ⟨before ++ first, last ++ [';'], after, ?_, blankAfter, .inr ⟨last, blankLast, rfl⟩, ?_⟩
    · rw [List.all_append,blankBefore,blankFirst]
      rfl
    · have whole : front ++ [';'] = first ++ trim front ++ last ++ [';'] := by rw [← inside]
      rw [shown,List.dropLast_concat]
      refine eq.trans ?_
      rw [shown,whole]
      simp only [List.append_assoc]
  · refine ⟨before, [], after, blankBefore, blankAfter, .inl rfl, ?_⟩
    rw [List.append_nil]
    exact eq

namespace Spelled

variable {name inner text : Chars} (spelled : Spelled name inner text)
include spelled

private theorem last : text.getLast? = some ')' := by
  obtain ⟨gap, -, rfl⟩ := spelled.shape
  rw [← List.cons_append,← List.append_assoc,List.getLast?_concat]

private theorem trimmed : Trimmed text where
  first := by
    obtain ⟨gap, -, rfl⟩ := spelled.shape
    obtain ⟨nonempty, words⟩ := all_isWordChar_identifier spelled.identifier
    rw [List.append_assoc]
    exact first_append nonempty (trimmed_words words).first _
  last := by
    rw [spelled.last]
    decide

end Spelled

/-- Calls are read as they are written: the tokens that are listed between the parentheses are the arguments, and
the arguments of every call that is read are listed between its parentheses. -/
theorem calls_are_read_as_written :
    (∀ {name gap inner line : Chars} {tokens : List Chars}, isIdentifier name = true → gap.all isBlank = true →
      (∀ token ∈ tokens, Listable token) → Listing tokens inner →
      Surrounds line (name ++ gap ++ '(' :: (inner ++ [')'])) →
        Call.parse? line = some ⟨String.ofList name, tokens, name ++ gap ++ '(' :: (inner ++ [')'])⟩) ∧
    (∀ {line : Chars} {call : Call}, Call.parse? line = some call →
      Surrounds line call.line ∧ ∃ inner, Spelled call.name.toList inner call.line ∧
        (∀ arg ∈ call.args, Trimmed arg) ∧ (Listing call.args inner ∨ Listing (call.args ++ [[]]) inner)) := by
  constructor
  · intro name gap inner line tokens identifier blank each listing surrounds
    have spelled : Spelled name inner (name ++ gap ++ '(' :: (inner ++ [')'])) :=
      ⟨identifier, (listing.steady each).enclosed, gap, blank, rfl⟩
    have unended : (name ++ gap ++ '(' :: (inner ++ [')'])).getLast? ≠ some ';' := by
      rw [spelled.last]
      decide
    rw [spelled.parse? (surrounds.stripSemicolon_trim spelled.trimmed unended),splitTopLevel_listing listing each]
  · intro line call read
    obtain ⟨shown, inner, spelled, args⟩ := Call.spelled_of_parse? read
    refine ⟨?_, inner, spelled, ?_⟩
    · rw [← shown]
      exact surrounds_stripSemicolon line
    · rw [args]
      exact ⟨trimmed_splitTopLevel inner, listing_splitTopLevel inner⟩

theorem calls_are_read_as_written_nested :
    Call.parse? " h ( f(a, [1]) , 'x, y',\x7b\"k\": 2\x7d ) ; ".toList =
      some ⟨"h", ["f(a, [1])".toList, "'x, y'".toList, "\x7b\"k\": 2\x7d".toList],
        "h ( f(a, [1]) , 'x, y',\x7b\"k\": 2\x7d )".toList⟩ ∧
    ∃ inner, Spelled "h".toList inner "h ( f(a, [1]) , 'x, y',\x7b\"k\": 2\x7d )".toList := by
  have first : Listable "f(a, [1])".toList :=
    .of_commas (by decide) ⟨by decide, by decide⟩ ⟨by decide, by decide⟩ (by decide)
  have second : Listable "'x, y'".toList :=
    .of_commas (by decide) ⟨by decide, by decide⟩ ⟨by decide, by decide⟩ (by decide)
  have third : Listable "\x7b\"k\": 2\x7d".toList :=
    .of_commas (by decide) ⟨by decide, by decide⟩ ⟨by decide, by decide⟩ (by decide)
  have listing : Listing ["f(a, [1])".toList, "'x, y'".toList, "\x7b\"k\": 2\x7d".toList]
      " f(a, [1]) , 'x, y',\x7b\"k\": 2\x7d ".toList :=
    @Listing.more [' '] _ [' '] _ _ rfl rfl (List.cons_ne_nil _ _)
      (@Listing.more [' '] _ [] _ _ rfl rfl (List.cons_ne_nil _ _) (@Listing.last [] _ [' '] rfl rfl))
  have each : ∀ token ∈ ["f(a, [1])".toList, "'x, y'".toList, "\x7b\"k\": 2\x7d".toList], Listable token := by
    simp only [List.mem_cons,List.not_mem_nil,or_false,forall_eq_or_imp,forall_eq]
    exact ⟨first, second, third⟩
  have around : Surrounds " h ( f(a, [1]) , 'x, y',\x7b\"k\": 2\x7d ) ; ".toList
      ("h".toList ++ [' '] ++ '(' :: (" f(a, [1]) , 'x, y',\x7b\"k\": 2\x7d ".toList ++ [')'])) :=
    ⟨[' '], " ;".toList, [' '], rfl, rfl, .inr ⟨[' '], rfl, rfl⟩, rfl⟩
  have read := calls_are_read_as_written.1 (by decide) rfl each listing around
  obtain ⟨-, inner, spelled, -, -⟩ := calls_are_read_as_written.2 read
  exact ⟨read, inner, spelled⟩

end Inyandiko
