import Inyandiko.Proofs.TextLiteral

/-! Texts in single quotes. With a backslash before each of its quotes, a text on one line is one closed literal for
everything that looks at quotes, and what it is read as is the text again, whatever else it contains. Only a
backslash at the end of the text would be taken to belong to the closing quote. -/
namespace Inyandiko

open Text Source

private theorem mem_escapeQuotes {c : Char} {content : Chars} (member : c ∈ escapeQuotes content) :
    c = '\\' ∨ c ∈ content := by
  induction content with
  | nil => cases member
  | cons d rest ih =>
    have later (inside : c ∈ escapeQuotes rest) : c = '\\' ∨ c ∈ d :: rest :=
      (ih inside).imp_right (List.mem_cons_of_mem _)
    rw [escapeQuotes] at member
    split at member
    · rename_i quote
      rcases List.mem_cons.mp member with same | member
      · exact .inl same
      · rcases List.mem_cons.mp member with same | member
        · exact .inr (List.mem_cons.mpr (.inl (same.trans quote.symm)))
        · exact later member
    · rcases List.mem_cons.mp member with same | member
      · exact .inr (List.mem_cons.mpr (.inl same))
      · exact later member

namespace QuotedText

variable (text : QuotedText)

/-- The literal of a text in single quotes. -/
def literal : Chars := (Leaf.quoted text).text

private theorem literal_ends : text.literal.getLast? = some '\'' := by
  rw [literal,Leaf.text,← List.cons_append,List.getLast?_concat]

private theorem trimmed_literal : Trimmed text.literal :=
  ⟨(by decide : isBlank '\'' = false), by rw [literal_ends]; decide⟩

private theorem plain_literal : Plain text.literal :=
  .of_quote text.trimmed_literal (by rw [← Leaf.text,← literal,literal_ends]; decide) (by decide)

private theorem hidden_literal (oneLine : ∀ c ∈ text.content, c ≠ '\n' ∧ c ≠ '\r') : Hidden text.literal where
  nonempty := List.cons_ne_nil _ _
  trimmed := text.trimmed_literal
  oneLine c member := by
    simp only [literal,Leaf.text,List.mem_cons,List.mem_append,List.not_mem_nil,or_false] at member
    rcases member with rfl | inside | rfl
    · decide
    · rcases mem_escapeQuotes inside with rfl | inside
      · decide
      · exact oneLine c inside
    · decide
  unseen scan inCode fresh := by
    have unseen := (scan_quoted text inCode fresh []).1
    rwa [List.append_nil] at unseen

private theorem evaluate_literal (lookup : String → Option Value) (heap : Heap) :
    evaluate lookup text.literal heap = .ok (.text (String.ofList text.content), heap) :=
  evaluateWithin_run text.trimmed_literal.trim_eq (List.cons_ne_nil _ _) (simpleValue?_quoted lookup heap text)

end QuotedText

private theorem declareText_quoted (text : QuotedText) :
    String.ofList (declareText false { text := ['x'] } text.literal) =
      "let x = '" ++ String.ofList (escapeQuotes text.content) ++ "'" := by
  have quotes : text.literal = "'".toList ++ escapeQuotes text.content ++ "'".toList := rfl
  rw [declareText_x,quotes,String.ofList_append,String.ofList_append,String.ofList_toList,← String.append_assoc,
    ← String.append_assoc]
  rfl

/-- A text on one line that does not end in a backslash is carried by its literal in single quotes, in which nothing
but its quotes is escaped. -/
theorem quoted_literals_carry_texts (setup : Setup) (options : RunOptions) (world : World) (text : String)
    (fresh : (Machine.initialVariables options).contains "x" = false)
    (oneLine : ∀ c ∈ text.toList, c ≠ '\n' ∧ c ≠ '\r') (closed : text.toList.getLast? ≠ some '\\') :
    (execute setup ("let x = '" ++ String.ofList (escapeQuotes text.toList) ++ "'") options world).1 =
      .ok ⟨none, (Machine.initialVariables options).insert "x" (.text text), .empty, []⟩ := by
  let quoted : QuotedText := ⟨text.toList, closed⟩
  have settled := (quoted.hidden_literal oneLine).settled_declareText false { text := ['x'] }
  have run : (execute setup (String.ofList (declareText false { text := ['x'] } quoted.literal)) options world).1 = _ :=
    execute_declared settled quoted.plain_literal (quoted.evaluate_literal _) fresh
  rwa [declareText_quoted,String.ofList_toList] at run

/-- Quotes of both kinds, backslashes before them, a comment, braces, an operator, a semicolon and blanks at both
ends in one text. -/
theorem quoted_literals_carry_texts_mixed :
    let text := " it's \\'\\\\\"// \x7b;\x7d+ "
    String.ofList (escapeQuotes text.toList) = " it\\'s \\\\'\\\\\"// \x7b;\x7d+ " ∧
      (Machine.initialVariables {}).contains "x" = false ∧ (∀ c ∈ text.toList, c ≠ '\n' ∧ c ≠ '\r') ∧
      text.toList.getLast? ≠ some '\\' ∧
      (execute {} ("let x = '" ++ String.ofList (escapeQuotes text.toList) ++ "'") {} {}).1 =
        .ok ⟨none, Table.empty.insert "x" (.text text), .empty, []⟩ := by
  intro text
  have oneLine : ∀ c ∈ text.toList, c ≠ '\n' ∧ c ≠ '\r' := forall_of_all (by decide)
  have closed : text.toList.getLast? ≠ some '\\' := by decide
  exact ⟨by decide, rfl, oneLine, closed, quoted_literals_carry_texts {} {} {} text rfl oneLine closed⟩

end Inyandiko
