import Inyandiko.Proofs.Expression.Character

/-! Scans of spelled expressions. A scan that stands where an operand may begin gets through a
spelled expression to where an operand has just ended, and its quotes and brackets are in order. -/
namespace Inyandiko

open Text

/-- The scan stands where an operand may begin: a plus or minus would be a sign. -/
structure AtOperand (scan : Scan) : Prop where
  inCode : scan.span = .code
  fresh : scan.escaped = false
  sign : Operator.isSignAfter scan.before = true

/-- The scan stands right behind an operand: a plus or minus would be an operator. -/
structure PastOperand (scan : Scan) : Prop where
  inCode : scan.span = .code
  fresh : scan.escaped = false
  operator : Operator.isSignAfter scan.before = false

theorem atOperand_start : AtOperand {} := ⟨rfl, rfl, rfl⟩

private theorem scan_space {scan : Scan} (inCode : scan.span = .code) :
    (scan.next ' ').span = .code ∧ (scan.next ' ').escaped = false ∧ (scan.next ' ').before = scan.before :=
  ⟨Scan.span_next_unquote inCode (by decide), rfl, by simp only [Scan.next]; exact if_pos (by decide)⟩

theorem AtOperand.spaces {scan : Scan} (ready : AtOperand scan) (count : Nat) :
    AtOperand (scan.after (spaces count)) := by
  induction count generalizing scan with
  | zero => exact ready
  | succ count ih =>
    obtain ⟨inCode, fresh, before⟩ := scan_space ready.inCode
    exact ih ⟨inCode, fresh, before ▸ ready.sign⟩

theorem PastOperand.spaces {scan : Scan} (done : PastOperand scan) (count : Nat) :
    PastOperand (scan.after (spaces count)) := by
  induction count generalizing scan with
  | zero => exact done
  | succ count ih =>
    obtain ⟨inCode, fresh, before⟩ := scan_space done.inCode
    exact ih ⟨inCode, fresh, before ▸ done.operator⟩

/-- A character that is no quote, no backslash and no blank decides what the scan has before it. -/
private theorem scan_solid {scan : Scan} (inCode : scan.span = .code) {c : Char}
    (unquote : isUnquote c = true) (unescaped : c ≠ '\\') (solid : isBlank c = false) :
    (scan.next c).span = .code ∧ (scan.next c).escaped = false ∧ (scan.next c).before = some c :=
  ⟨Scan.span_next_unquote inCode unquote, decide_eq_false unescaped, if_neg (by simp [solid])⟩

theorem atOperand_next {scan : Scan} (inCode : scan.span = .code) {c : Char}
    (member : c ∈ Operator.signPredecessors) : AtOperand (scan.next c) := by
  have facts : ∀ c ∈ Operator.signPredecessors,
      isUnquote c = true ∧ c ≠ '\\' ∧ isBlank c = false := forall_of_all (by decide)
  obtain ⟨unquote, unescaped, solid⟩ := facts c member
  obtain ⟨code, fresh, before⟩ := scan_solid inCode unquote unescaped solid
  refine ⟨code, fresh, ?_⟩
  rw [before]
  exact List.contains_iff_mem.mpr member

private theorem pastOperand_paren {scan : Scan} (inCode : scan.span = .code) : PastOperand (scan.next ')') := by
  obtain ⟨code, fresh, before⟩ := scan_solid inCode (c := ')') (by decide) (by decide) (by decide)
  refine ⟨code, fresh, ?_⟩
  rw [before]
  decide

private theorem pastOperand_word {scan : Scan} (inCode : scan.span = .code) {text : Chars}
    (nonempty : text ≠ []) (words : text.all isWordChar = true) : PastOperand (scan.after text) := by
  induction text generalizing scan with
  | nil => exact absurd rfl nonempty
  | cons c rest ih =>
    simp only [List.all_cons,Bool.and_eq_true] at words
    have quiet := isWordChar_isQuiet words.1
    have unquote : isUnquote c = true := by
      simp only [isQuiet,Bool.and_eq_true] at quiet
      exact quiet.1.1.1
    have unescaped : c ≠ '\\' := isWordChar_ne words.1 (by decide)
    obtain ⟨code, fresh, before⟩ := scan_solid inCode unquote unescaped (isBlank_of_isWordChar words.1)
    by_cases last : rest = []
    · subst last
      refine ⟨code, fresh, ?_⟩
      have outside : ∀ other ∈ Operator.signPredecessors, c ≠ other := by
        intro other member
        have listed : ∀ d ∈ Operator.signPredecessors, isWordChar d = false := forall_of_all (by decide)
        intro equal
        rw [equal,listed other member] at words
        cases words.1
      rw [Scan.after_cons,Scan.after_nil,before]
      simp only [Operator.isSignAfter,Option.all_some]
      rw [← Bool.not_eq_true,List.contains_iff_mem]
      exact fun member => outside c member rfl
    · exact ih code last words.2

private theorem scan_single {scan : Scan} (inside : scan.span = .single) {c : Char}
    (kept : scan.escaped = true ∨ c ≠ '\'') (rest : Chars) :
    scan.spots (c :: rest) = (scan.next c).spots rest ∧ (scan.next c).span = .single := by
  have still : Span.toggle? .single scan.escaped c = none := by
    rcases kept with escaped | other
    · simp [Span.toggle?,escaped]
    · simp [Span.toggle?,other]
  constructor
  · simp [Scan.spots,Scan.sees,inside]
  · simp [Scan.next,inside,still]

private theorem ends_escaped (c : Char) (tail : Chars) (escaped : Bool) :
    ((c :: tail).getLast?.map (fun c => decide (c = '\\'))).getD escaped =
      (tail.getLast?.map (fun c => decide (c = '\\'))).getD (decide (c = '\\')) := by
  rw [List.getLast?_cons]
  cases tail.getLast? <;> rfl

/-- Inside single quotes an escaped content shows nothing and does not end the quotes. -/
private theorem scan_escapeQuotes (content : Chars) {scan : Scan} (inside : scan.span = .single) (rest : Chars) :
    scan.spots (escapeQuotes content ++ rest) = (scan.after (escapeQuotes content)).spots rest ∧
      (scan.after (escapeQuotes content)).span = .single ∧
      (scan.after (escapeQuotes content)).escaped =
        (content.getLast?.map (fun c => decide (c = '\\'))).getD scan.escaped := by
  induction content generalizing scan with
  | nil => exact ⟨rfl, inside, rfl⟩
  | cons c tail ih =>
    rw [ends_escaped]
    by_cases quote : c = '\''
    · subst quote
      rw [escapeQuotes,if_pos rfl]
      obtain ⟨first, single⟩ := scan_single inside (c := '\\') (.inr (by decide))
        ('\'' :: (escapeQuotes tail ++ rest))
      obtain ⟨second, single'⟩ := scan_single single (c := '\'') (.inl rfl) (escapeQuotes tail ++ rest)
      obtain ⟨spots, span, escaped⟩ := ih single'
      exact ⟨first.trans (second.trans spots), span, escaped⟩
    · rw [escapeQuotes,if_neg quote]
      obtain ⟨first, single⟩ := scan_single inside (.inr quote) (escapeQuotes tail ++ rest)
      obtain ⟨spots, span, escaped⟩ := ih single
      exact ⟨first.trans spots, span, escaped⟩

/-- A text in single quotes shows nothing and is an operand. -/
theorem scan_quoted (text : QuotedText) {scan : Scan} (inCode : scan.span = .code)
    (fresh : scan.escaped = false) (rest : Chars) :
    scan.spots ((Leaf.quoted text).text ++ rest) = (scan.after (Leaf.quoted text).text).spots rest ∧
      PastOperand (scan.after (Leaf.quoted text).text) := by
  have opening : (scan.next '\'').span = .single ∧ (scan.next '\'').escaped = false := by
    simp [Scan.next,inCode,fresh,Span.toggle?]
  have unseen (rest : Chars) : scan.spots ('\'' :: rest) = (scan.next '\'').spots rest := by
    simp [Scan.spots,Scan.sees,inCode,fresh,Span.toggle?]
  obtain ⟨spots, single, escaped⟩ := scan_escapeQuotes text.content opening.1 ('\'' :: rest)
  have unescaped : ((scan.next '\'').after (escapeQuotes text.content)).escaped = false := by
    rw [escaped,opening.2]
    have closed := text.closed
    cases last : text.content.getLast? with
    | none => rfl
    | some c =>
      rw [last] at closed
      exact decide_eq_false fun equal => closed (congrArg some equal)
  generalize inner : (scan.next '\'').after (escapeQuotes text.content) = middle at *
  have closing (rest : Chars) : middle.spots ('\'' :: rest) = (middle.next '\'').spots rest := by
    simp [Scan.spots,Scan.sees,single]
  have left : scan.after (Leaf.quoted text).text = middle.next '\'' := by
    rw [Leaf.text,Scan.after_cons,Scan.after_append,inner]
    rfl
  rw [left]
  constructor
  · rw [Leaf.text,List.cons_append,unseen,List.append_assoc]
    exact spots.trans (closing rest)
  · refine ⟨?_, rfl, ?_⟩
    · simp [Scan.next,single,unescaped,Span.toggle?]
    · simp only [Scan.next]
      rw [if_neg (by decide)]
      decide

theorem all_isWordChar_identifier {name : Chars} (identifier : isIdentifier name = true) :
    name ≠ [] ∧ name.all isWordChar = true := by
  cases name with
  | nil => cases identifier
  | cons c rest =>
    simp only [isIdentifier,Bool.and_eq_true] at identifier
    have first : isWordChar c = true := by simp [isWordChar,isNamePart,identifier.1]
    refine ⟨List.cons_ne_nil _ _, ?_⟩
    rw [List.all_cons,first,Bool.true_and,List.all_eq_true]
    intro d member
    have part := List.all_eq_true.mp identifier.2 d member
    rw [isWordChar,part,Bool.true_or]

/-- A leaf is made of word characters, or it is a text in quotes. -/
theorem Leaf.word_or_quoted (leaf : Leaf) :
    (leaf.text ≠ [] ∧ leaf.text.all isWordChar = true) ∨ ∃ text, leaf = .quoted text := by
  cases leaf with
  | integer literal =>
    refine .inl ⟨literal.nonempty, ?_⟩
    have decimal := literal.decimal
    rw [List.all_eq_true] at decimal
    rw [Leaf.text,List.all_eq_true]
    intro c member
    simp only [isWordChar,decimal c member,Bool.or_true]
  | word kind => cases kind <;> exact .inl (by decide)
  | quoted text => exact .inr ⟨text, rfl⟩
  | name name => exact .inl (all_isWordChar_identifier name.identifier)

private theorem Leaf.past (leaf : Leaf) {scan : Scan} (ready : AtOperand scan) :
    PastOperand (scan.after leaf.text) := by
  rcases leaf.word_or_quoted with ⟨nonempty, words⟩ | ⟨text, rfl⟩
  · exact pastOperand_word ready.inCode nonempty words
  · exact (scan_quoted text ready.inCode ready.fresh []).2

theorem Unary.char_mem (operator : Unary) : operator.char ∈ Operator.signPredecessors := by
  cases operator <;> decide

/-- Behind the spelling of an operator an operand may begin. -/
theorem Operator.after_spelling (operator : Operator) {scan : Scan} (inCode : scan.span = .code) :
    AtOperand (scan.after operator.spelling) := by
  have two {c d : Char} (one : c ∈ signPredecessors) (other : d ∈ signPredecessors) :
      AtOperand ((scan.next c).next d) := atOperand_next (atOperand_next inCode one).inCode other
  cases operator with
  | or | and | eq | ne | ge | le => exact two (by decide) (by decide)
  | gt | lt | add | sub | mul | div | rem => exact atOperand_next inCode (by decide)

namespace Expression.Spelled

variable {least : Nat} {expression : Expression} {text : Chars}

/-- A spelled expression gets a scan from the beginning of an operand to behind it. -/
theorem past (spelled : Spelled least expression text) {scan : Scan} (ready : AtOperand scan) :
    PastOperand (scan.after text) := by
  induction spelled generalizing scan with
  | leaf _ leaf => exact leaf.past ready
  | unary operator gap fits inner ih =>
    rw [Scan.after_cons,Scan.after_append]
    exact ih ((atOperand_next ready.inCode operator.char_mem).spaces gap)
  | binary operator before after fits one two left right =>
    simp only [Scan.after_append]
    have done := (left ready).spaces before
    exact right ((operator.after_spelling done.inCode).spaces after)
  | parens before after needed inner ih =>
    rw [Scan.after_cons]
    simp only [Scan.after_append]
    have opened := (atOperand_next ready.inCode (c := '(') (by decide)).spaces before
    exact pastOperand_paren ((ih opened).spaces after).inCode

end Expression.Spelled

/-- Characters that are neither quotes nor brackets. -/
private def isInert (c : Char) : Bool := isUnquote c && (!opens c && !closes c)

private theorem due_inert {scan : Scan} (inCode : scan.span = .code) {text : Chars}
    (inert : text.all isInert = true) (due : List Char) :
    dueAfter due ((scan.spots text).map Spot.char) = some due := by
  have both : text.all isUnquote = true ∧ text.all (fun c => !opens c && !closes c) = true := by
    simp only [List.all_eq_true,isInert,Bool.and_eq_true] at inert ⊢
    exact ⟨fun c member => (inert c member).1, fun c member => (inert c member).2⟩
  rw [Scan.chars_unquote inCode both.1]
  exact dueAfter_plain both.2 due

private theorem inert_spaces (count : Nat) : (spaces count).all isInert = true := by
  rw [List.all_eq_true]
  intro c member
  rw [(List.mem_replicate.mp member).2]
  decide

private theorem due_append {scan : Scan} {first second : Chars} {due : List Char}
    (one : dueAfter due ((scan.spots first).map Spot.char) = some due) :
    dueAfter due ((scan.spots (first ++ second)).map Spot.char) =
      dueAfter due (((scan.after first).spots second).map Spot.char) := by
  rw [Scan.spots_append,List.map_append,List.map_map,dueAfter_append]
  have same : Spot.char ∘ Spot.extend second = Spot.char := rfl
  rw [same,one]
  rfl

private theorem Leaf.due (leaf : Leaf) {scan : Scan} (ready : AtOperand scan) (due : List Char) :
    dueAfter due ((scan.spots leaf.text).map Spot.char) = some due := by
  rcases leaf.word_or_quoted with ⟨_, words⟩ | ⟨text, rfl⟩
  · refine due_inert ready.inCode ?_ due
    rw [List.all_eq_true] at words ⊢
    intro c member
    have quiet := isWordChar_isQuiet (words c member)
    simp only [isQuiet,Bool.and_eq_true] at quiet
    simp only [isInert,quiet,Bool.and_self]
  · have unseen := (scan_quoted text ready.inCode ready.fresh []).1
    rw [List.append_nil] at unseen
    rw [unseen]
    rfl

namespace Expression.Spelled

variable {least : Nat} {expression : Expression} {text : Chars}

private theorem due (spelled : Spelled least expression text) {scan : Scan} (ready : AtOperand scan)
    (due : List Char) : dueAfter due ((scan.spots text).map Spot.char) = some due := by
  induction spelled generalizing scan due with
  | leaf _ leaf => exact leaf.due ready due
  | unary operator gap fits inner ih =>
    have sign : AtOperand (scan.after [operator.char]) := atOperand_next ready.inCode operator.char_mem
    have inert : [operator.char].all isInert = true := by cases operator <;> decide
    rw [← List.singleton_append,due_append (due_inert ready.inCode inert due)]
    rw [due_append (due_inert sign.inCode (inert_spaces gap) due)]
    exact ih (sign.spaces gap) due
  | binary operator before after fits one two left right =>
    have done := one.past ready
    have inert : operator.spelling.all isInert = true := by cases operator <;> decide
    have ready' := operator.after_spelling (done.spaces before).inCode
    rw [due_append (left ready due),due_append (due_inert done.inCode (inert_spaces before) due)]
    rw [due_append (due_inert (done.spaces before).inCode inert due)]
    rw [due_append (due_inert ready'.inCode (inert_spaces after) due)]
    exact right (ready'.spaces after) due
  | parens before after needed inner ih =>
    have opened := atOperand_next ready.inCode (c := '(') (by decide)
    have done := inner.past (opened.spaces before)
    rw [Scan.spots_unquote ready.inCode (by decide),List.map_cons]
    change dueAfter (')' :: due) _ = some due
    rw [due_append (due_inert opened.inCode (inert_spaces before) _)]
    rw [due_append (ih (opened.spaces before) _)]
    rw [due_append (due_inert done.inCode (inert_spaces after) _)]
    rw [Scan.spots_unquote (done.spaces after).inCode (by decide)]
    rfl

/-- The quotes of a spelled expression are closed, and its brackets are nested. -/
theorem steady (spelled : Spelled least expression text) : Steady text where
  closed := (spelled.past atOperand_start).inCode
  nested := spelled.due atOperand_start []

end Expression.Spelled

end Inyandiko
