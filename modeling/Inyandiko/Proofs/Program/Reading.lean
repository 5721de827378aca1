import Inyandiko.Proofs.Program.Block
import Inyandiko.Proofs.Program.Call

/-! Reading the lines of programs. Every statement is read back from its line, and the lines of its
blocks are taken along with it; so the statements read from the lines of a program are those of the
program, up to a header that is refused. -/
namespace Inyandiko

open Text Source

private theorem keyword?_word (keyword : Keyword) {rest : Chars} (stops : rest.head?.any isNamePart = false) :
    keyword? (keyword.word ++ rest) = some keyword := by
  have spelled : String.ofList keyword.word = keyword.spelling := String.ofList_toList
  simp only [keyword?,leadingName?_append keyword.identifier stops,bind,Option.bind,spelled]
  cases keyword <;> decide

private theorem Identifier.keyword?_eq_none (name : Identifier) {rest : Chars}
    (stops : rest.head?.any isNamePart = false) : keyword? (name.text ++ rest) = none := by
  have alone := leadingName?_append name.identifier (show ([] : Chars).head?.any isNamePart = false from rfl)
  have unreserved := name.unreserved
  rw [List.append_nil] at alone
  simp only [keyword?,alone,bind,Option.bind] at unreserved
  simp only [keyword?,leadingName?_append name.identifier stops,bind,Option.bind,unreserved]

theorem dropLead?_append (lead text : Chars) : dropLead? lead (lead ++ text) = some text := by
  induction lead with
  | nil => rfl
  | cons c lead ih => simpa [dropLead?] using ih

theorem stripSemicolon_eq {line : Line} (unended : line.getLast? ≠ some ';') : stripSemicolon line = line := by
  rw [stripSemicolon,if_neg unended]

private theorem trim_space {text : Chars} (trimmed : Trimmed text) : trim (' ' :: text) = text := trimmed.trim_spaces 1

private theorem unended_append {text : Chars} (some_ : text ≠ []) (unended : text.getLast? ≠ some ';') (words : Chars) :
    (words ++ text).getLast? ≠ some ';' := by
  rw [List.getLast?_append,List.getLast?_eq_some_getLast some_,Option.some_or]
  rwa [List.getLast?_eq_some_getLast some_] at unended

private theorem Fragment.unended_append (fragment : Fragment) (words : Chars) :
    (words ++ fragment.text).getLast? ≠ some ';' :=
  Inyandiko.unended_append fragment.nonempty fragment.unended words

private theorem ofText?_assignText (name : Identifier) {expression : Chars} (trimmed : Trimmed expression) :
    Assignment.ofText? (assignText name.text expression) = some ⟨name.string, expression⟩ := by
  have shape : assignText name.text expression = name.text ++ (' ' :: '=' :: ' ' :: expression) := by
    simp [assignText]
  have read : leadingName? (assignText name.text expression) =
      some (name.text, ' ' :: '=' :: ' ' :: expression) := by
    rw [shape]
    exact leadingName?_append name.identifier (by decide : isNamePart ' ' = false)
  have sign : trimStart (' ' :: '=' :: ' ' :: expression) = '=' :: ' ' :: expression := by
    rw [trimStart,List.dropWhile_cons_of_pos (by decide),List.dropWhile_cons_of_neg (by decide)]
  simp only [Assignment.ofText?,read,bind,Option.bind,sign,trim_space trimmed]
  rfl

/-- The statement that a line is read as. -/
def Simple.statement : Simple → Statement
  | .declare isConst name expression => .declare ⟨isConst, name.string, expression.text⟩
  | .assign name expression => .assign ⟨name.string, expression.text⟩
  | .giveBack none => .giveBack []
  | .giveBack (some expression) => .giveBack expression.text
  | .call name args => .command (callText name.text (args.map Fragment.text))

private theorem isFiller_append {word : Chars} (words : word ≠ [] ∧ word.all isWordChar = true) (rest : Chars) :
    Statement.isFiller (word ++ rest) = false := by
  obtain ⟨nonempty, each⟩ := words
  cases word with
  | nil => exact absurd rfl nonempty
  | cons c word =>
    simp only [List.all_cons,Bool.and_eq_true] at each
    have opening : c ≠ '{' := isWordChar_ne each.1 (by decide)
    have closing : c ≠ '}' := isWordChar_ne each.1 (by decide)
    simp [Statement.isFiller,opening,closing]

private theorem leads_word (keyword : Keyword) (rest : Chars) {line : Line} (shape : line = keyword.word ++ rest)
    (stops : rest.head?.any isNamePart = false) :
    Statement.isFiller line = false ∧ keyword? line = some keyword := by
  subst shape
  exact ⟨isFiller_append keyword.words rest, keyword?_word keyword stops⟩

/-- The line of a declaration. -/
def declareText (isConst : Bool) (name : Identifier) (expression : Chars) : Line :=
  ((bindingKeyword isConst).word ++ [' ']) ++ assignText name.text expression

private theorem declareText_eq (isConst : Bool) (name : Identifier) (expression : Chars) :
    declareText isConst name expression =
      (bindingKeyword isConst).word ++ (' ' :: assignText name.text expression) := by
  simp [declareText]

private theorem parse?_declareText (isConst : Bool) (name : Identifier) {expression : Chars} (some_ : expression ≠ [])
    (trimmed : Trimmed expression) (unended : expression.getLast? ≠ some ';') :
    Declaration.parse? (declareText isConst name expression) = some ⟨isConst, name.string, expression⟩ := by
  have whole : Trimmed (declareText isConst name expression) :=
    ⟨first_append (List.append_ne_nil_of_left_ne_nil (bindingKeyword isConst).words.1 _)
      (first_append (bindingKeyword isConst).words.1 (bindingKeyword isConst).solid _) _,
    by rw [declareText,assignText,← List.append_assoc]; exact last_append some_ trimmed.last _⟩
  have unended' : (declareText isConst name expression).getLast? ≠ some ';' := by
    rw [declareText,assignText,← List.append_assoc]
    exact unended_append some_ unended _
  have read : leadingName? (declareText isConst name expression) =
      some ((bindingKeyword isConst).word, ' ' :: assignText name.text expression) := by
    rw [declareText_eq]
    exact leadingName?_append (bindingKeyword isConst).identifier (by decide : isNamePart ' ' = false)
  have first : (assignText name.text expression).head?.any isBlank = false := by
    rw [assignText]
    exact first_append (List.append_ne_nil_of_left_ne_nil name.words.1 _)
      (first_append name.words.1 name.argument.trimmed.first _) _
  have dropped : dropBlanks? (' ' :: assignText name.text expression) =
      some (assignText name.text expression) := by
    rw [dropBlanks?,if_pos (by decide),trimStart_of_first first]
  simp only [Declaration.parse?,whole.trim_eq,stripSemicolon_eq unended',read,bind,Option.bind,dropped,
    ofText?_assignText name trimmed]
  cases isConst with
  | false => exact if_pos rfl
  | true => exact (if_neg (by decide)).trans (if_pos rfl)

theorem leads_declareText (isConst : Bool) (name : Identifier) (expression : Chars) :
    Statement.isFiller (declareText isConst name expression) = false ∧
      keyword? (declareText isConst name expression) = some (bindingKeyword isConst) :=
  leads_word (bindingKeyword isConst) _ (declareText_eq isConst name expression)
    (by decide : isNamePart ' ' = false)

/-- A declaration is read from its line. -/
theorem read_declareText (isConst : Bool) (name : Identifier) {expression : Chars} (some_ : expression ≠ [])
    (trimmed : Trimmed expression) (unended : expression.getLast? ≠ some ';') (following : List Line) :
    Statement.read (declareText isConst name expression) following =
      .ok (.declare ⟨isConst, name.string, expression⟩, following) := by
  have declared := parse?_declareText isConst name some_ trimmed unended
  have keyword := (leads_declareText isConst name expression).2
  unfold Statement.read
  rw [keyword]
  cases isConst <;> simp only [bindingKeyword] <;> rw [declared] <;> rfl

private theorem parseReturn_word : parseReturn Keyword.giveBack.word = .ok [] := by
  have trimmed := (trimmed_words Keyword.giveBack.words.2).trim_eq
  have unended : Keyword.giveBack.word.getLast? ≠ some ';' := by decide
  have dropped := dropLead?_append Keyword.giveBack.word []
  rw [List.append_nil] at dropped
  have dropped' : dropLead? "garura".toList Keyword.giveBack.word = some [] := dropped
  simp only [parseReturn,trimmed,stripSemicolon_eq unended,dropped']
  rfl

private theorem parseReturn_expression (expression : Fragment) :
    parseReturn (Simple.giveBack (some expression)).line = .ok expression.text := by
  obtain ⟨logical, _⟩ := (Simple.giveBack (some expression)).logical
  have unended : (Simple.giveBack (some expression)).line.getLast? ≠ some ';' := expression.unended_append _
  have dropped : dropLead? "garura".toList (Simple.giveBack (some expression)).line =
      some (' ' :: expression.text) := by
    have shape : (Simple.giveBack (some expression)).line = Keyword.giveBack.word ++ (' ' :: expression.text) := by
      simp [Simple.line]
    rw [shape]
    exact dropLead?_append Keyword.giveBack.word _
  have stops : (' ' :: expression.text).head?.any isNamePart = false := (by decide : isNamePart ' ' = false)
  simp only [parseReturn,logical.trimmed.trim_eq,stripSemicolon_eq unended,dropped,stops,trim_space expression.trimmed]
  rfl

private theorem parse?_assign (name : Identifier) (expression : Fragment) :
    Assignment.parse? (Simple.assign name expression).line = some ⟨name.string, expression.text⟩ := by
  obtain ⟨logical, _⟩ := (Simple.assign name expression).logical
  have unended : (Simple.assign name expression).line.getLast? ≠ some ';' := expression.unended_append _
  rw [Assignment.parse?,logical.trimmed.trim_eq,stripSemicolon_eq unended]
  exact ofText?_assignText name expression.trimmed

private theorem parse?_call (name : Identifier) (args : List Fragment) :
    Assignment.parse? (Simple.call name args).line = none := by
  obtain ⟨logical, _⟩ := (Simple.call name args).logical
  have unended : (Simple.call name args).line.getLast? ≠ some ';' := by
    rw [Simple.line,callText_ends]
    decide
  have read : leadingName? (Simple.call name args).line =
      some (name.text, '(' :: (listed (args.map Fragment.text) ++ [')'])) :=
    leadingName?_append name.identifier (by decide : isNamePart '(' = false)
  have unpadded : trimStart ('(' :: (listed (args.map Fragment.text) ++ [')'])) =
      '(' :: (listed (args.map Fragment.text) ++ [')']) := trimStart_of_first (by decide : isBlank '(' = false)
  simp only [Assignment.parse?,logical.trimmed.trim_eq,stripSemicolon_eq unended,Assignment.ofText?,read,bind,
    Option.bind,unpadded]
  rfl

private theorem leads_name (name : Identifier) (rest : Chars) {line : Line} (shape : line = name.text ++ rest)
    (stops : rest.head?.any isNamePart = false) :
    Statement.isFiller line = false ∧ keyword? line = none := by
  subst shape
  exact ⟨isFiller_append name.words rest, name.keyword?_eq_none stops⟩

/-- The keyword of a statement. -/
def Simple.keyword : Simple → Option Keyword
  | .declare isConst _ _ => some (bindingKeyword isConst)
  | .assign _ _ => none
  | .giveBack _ => some .giveBack
  | .call _ _ => none

private theorem Simple.leads (statement : Simple) :
    Statement.isFiller statement.line = false ∧ keyword? statement.line = statement.keyword := by
  have space : isNamePart ' ' = false := by decide
  have paren : isNamePart '(' = false := by decide
  cases statement with
  | declare isConst name expression =>
    exact leads_declareText isConst name expression.text
  | assign name expression =>
    refine leads_name name (' ' :: '=' :: ' ' :: expression.text) ?_ space
    simp [Simple.line,assignText]
  | giveBack expression =>
    cases expression with
    | none => exact leads_word .giveBack [] (List.append_nil _).symm rfl
    | some expression =>
      refine leads_word .giveBack (' ' :: expression.text) ?_ space
      simp [Simple.line]
  | call name args => exact leads_name name _ rfl paren

private theorem Simple.read (statement : Simple) (following : List Line) :
    Statement.read statement.line following = .ok (statement.statement, following) := by
  obtain ⟨_, keyword⟩ := statement.leads
  cases statement with
  | declare isConst name expression =>
    exact read_declareText isConst name expression.nonempty expression.trimmed expression.unended following
  | assign name expression =>
    simp only [Simple.keyword] at keyword
    simp only [Statement.read,keyword,parse?_assign]
    rfl
  | giveBack expression =>
    simp only [Simple.keyword] at keyword
    simp only [Statement.read,keyword]
    cases expression with
    | none =>
      rw [Simple.line,parseReturn_word]
      rfl
    | some expression =>
      rw [parseReturn_expression]
      rfl
  | call name args =>
    simp only [Simple.keyword] at keyword
    simp only [Statement.read,keyword,parse?_call]
    rfl

section Headers

variable {words : Chars} {args : List Chars}

private theorem headerLine_ends (words : Chars) (args : List Chars) : (headerLine words args).getLast? = some '{' := by
  have shape : headerLine words args = (callText words args ++ [' ']) ++ ['{'] := by simp [headerLine]
  rw [shape,List.getLast?_concat]

private theorem headerLine_dropLast (words : Chars) (args : List Chars) :
    (headerLine words args).dropLast = callText words args ++ [' '] := by
  have shape : headerLine words args = (callText words args ++ [' ']) ++ ['{'] := by simp [headerLine]
  rw [shape,List.dropLast_concat]

private theorem loopCall (each : ∀ arg ∈ args, Argument arg) :
    Call.parse? (headerLine Keyword.loop.word args).dropLast =
      some ⟨"subiramo", args, callText Keyword.loop.word args⟩ := by
  obtain ⟨logical, _⟩ := logical_callText Keyword.loop.wording Keyword.loop.words.1 Keyword.loop.solid each
  have trimmed : trim (callText Keyword.loop.word args ++ [' ']) = callText Keyword.loop.word args :=
    logical.trimmed.trim_pad (show ([] : Chars).all isBlank = true from rfl) (all_isBlank_spaces 1)
  have spelled : String.ofList Keyword.loop.word = "subiramo" := String.ofList_toList
  rw [headerLine_dropLast,parse?_callText Keyword.loop.identifier each trimmed,spelled]

private theorem isName_identifier (name : Identifier) : isName name.text = true := by
  have read := leadingName?_append name.identifier (show ([] : Chars).head?.any isNamePart = false from rfl)
  rw [List.append_nil] at read
  rw [isName,read]
  rfl

private theorem parse_count (rounds : Fragment) :
    LoopHeader.parse (Header.count rounds).line = .ok (.count rounds.text) := by
  obtain ⟨logical, _⟩ := (Header.count rounds).logical
  have each : ∀ arg ∈ [rounds.text], Argument arg := fun arg member => by
    rw [List.mem_singleton.mp member]
    exact rounds.argument
  have call := loopCall each
  have trimmed := logical.trimmed.trim_eq
  simp only [Header.line] at trimmed ⊢
  simp only [LoopHeader.parse,trimmed,headerLine_ends,call]
  rfl

private theorem parse_range (name : Identifier) (first last : Fragment) :
    LoopHeader.parse (Header.range name first last).line = .ok (.range name.string first.text last.text) := by
  obtain ⟨logical, _⟩ := (Header.range name first last).logical
  have each : ∀ arg ∈ [name.text, first.text, last.text], Argument arg := fun arg member => by
    simp only [List.mem_cons,List.not_mem_nil,or_false] at member
    rcases member with rfl | rfl | rfl
    · exact name.argument
    · exact first.argument
    · exact last.argument
  have call := loopCall each
  have trimmed := logical.trimmed.trim_eq
  have named := isName_identifier name
  simp only [Header.line] at trimmed ⊢
  simp only [LoopHeader.parse,trimmed,headerLine_ends,call]
  simp only [if_true,Option.filter_some,decide_true,named]
  rfl

private theorem mem_listed {c : Char} (member : c ∈ listed args) : c = ',' ∨ c = ' ' ∨ ∃ arg ∈ args, c ∈ arg := by
  induction args with
  | nil => cases member
  | cons arg rest ih =>
    cases rest with
    | nil => exact .inr (.inr ⟨arg, List.mem_cons_self, member⟩)
    | cons other rest =>
      simp only [listed,List.mem_append,List.mem_cons] at member
      rcases member with here | comma | space | later
      · exact .inr (.inr ⟨arg, List.mem_cons_self, here⟩)
      · exact .inl comma
      · exact .inr (.inl space)
      · rcases ih later with comma | space | ⟨found, among, inside⟩
        · exact .inl comma
        · exact .inr (.inl space)
        · exact .inr (.inr ⟨found, List.mem_cons_of_mem _ among, inside⟩)

private theorem trimmed_listed (each : ∀ arg ∈ args, Argument arg) (some_ : args ≠ []) :
    listed args ≠ [] ∧ Trimmed (listed args) := by
  induction args with
  | nil => exact absurd rfl some_
  | cons arg rest ih =>
    have first := each arg List.mem_cons_self
    cases rest with
    | nil => exact ⟨first.nonempty, first.trimmed⟩
    | cons other rest =>
      obtain ⟨nonempty, trimmed⟩ := ih (fun arg member => each arg (List.mem_cons_of_mem _ member))
        (List.cons_ne_nil _ _)
      rw [listed_cons]
      exact ⟨List.append_ne_nil_of_right_ne_nil _ nonempty,
        first_append (List.append_ne_nil_of_left_ne_nil first.nonempty _)
          (first_append first.nonempty first.trimmed.first _) _,
        last_append nonempty trimmed.last _⟩

private theorem splitOn_listed (trimmed : ∀ arg ∈ args, Trimmed arg) (absent : ∀ arg ∈ args, ',' ∉ arg)
    (some_ : args ≠ []) (gap : Nat) : (splitOn ',' (spaces gap ++ listed args)).map trim = args := by
  induction args generalizing gap with
  | nil => exact absurd rfl some_
  | cons arg rest ih =>
    have unpadded := (trimmed arg List.mem_cons_self).trim_spaces gap
    have whole : ',' ∉ spaces gap ++ arg := by
      rw [List.mem_append,not_or]
      exact ⟨fun member => absurd (List.mem_replicate.mp member).2 (by decide), absent arg List.mem_cons_self⟩
    cases rest with
    | nil =>
      rw [listed,splitOn_piece whole,List.map_singleton,unpadded]
    | cons other rest =>
      have shape : spaces gap ++ listed (arg :: other :: rest) =
          (spaces gap ++ arg) ++ ',' :: (spaces 1 ++ listed (other :: rest)) := by
        rw [listed,List.append_assoc]
        rfl
      rw [shape,splitOn_append whole,List.map_cons,unpadded]
      rw [ih (fun arg member => trimmed arg (List.mem_cons_of_mem _ member))
        (fun arg member => absent arg (List.mem_cons_of_mem _ member)) (List.cons_ne_nil _ _)]

variable {params : List Identifier}

private theorem params_without {c : Char} (other : isWordChar c = false) {param : Chars}
    (member : param ∈ params.map Identifier.text) : c ∉ param := by
  obtain ⟨name, _, rfl⟩ := List.mem_map.mp member
  intro inside
  rw [List.all_eq_true.mp name.words.2 c inside] at other
  cases other

private theorem parts?_define (name : Identifier) (params : List Identifier) :
    FunctionHeader.parts? (Header.define name params).line =
      some (name.text, listed (params.map Identifier.text)) := by
  obtain ⟨logical, _⟩ := (Header.define name params).logical
  have shape : (Header.define name params).line = Keyword.define.word ++
      (' ' :: (name.text ++ ('(' :: (listed (params.map Identifier.text) ++ [')', ' ', '{'])))) := by
    simp [Header.line,headerLine,callText]
  have inside : ∀ c ∈ listed (params.map Identifier.text), decide (c ≠ ')') = true := by
    intro c member
    refine decide_eq_true fun paren => ?_
    subst paren
    rcases mem_listed member with comma | space | ⟨param, among, within⟩
    · exact absurd comma (by decide)
    · exact absurd space (by decide)
    · exact params_without (by decide) among within
  rw [FunctionHeader.parts?,logical.trimmed.trim_eq,shape]
  generalize listed (params.map Identifier.text) = inner at inside ⊢
  have dropped : dropLead? "umukoro".toList
      (Keyword.define.word ++ (' ' :: (name.text ++ ('(' :: (inner ++ [')', ' ', '{']))))) =
        some (' ' :: (name.text ++ ('(' :: (inner ++ [')', ' ', '{'])))) :=
    dropLead?_append Keyword.define.word _
  have unspaced : dropBlanks? (' ' :: (name.text ++ ('(' :: (inner ++ [')', ' ', '{'])))) =
      some (name.text ++ ('(' :: (inner ++ [')', ' ', '{']))) := by
    rw [dropBlanks?,if_pos (by decide),trimStart_of_first (first_append name.words.1 name.argument.trimmed.first _)]
  have read : leadingName? (name.text ++ ('(' :: (inner ++ [')', ' ', '{']))) =
      some (name.text, '(' :: (inner ++ [')', ' ', '{'])) :=
    leadingName?_append name.identifier (by decide : isNamePart '(' = false)
  have unpadded : trimStart ('(' :: (inner ++ [')', ' ', '{'])) = '(' :: (inner ++ [')', ' ', '{']) :=
    trimStart_of_first (by decide : isBlank '(' = false)
  simp only [dropped,bind,Option.bind,unspaced,read,unpadded,List.dropWhile_append_of_pos inside,
    List.takeWhile_append_of_pos inside]
  exact congrArg (fun text => some (name.text, text)) (List.append_nil inner)

private theorem parse_define (name : Identifier) (params : List Identifier) :
    FunctionHeader.parse (Header.define name params).line =
      if (params.map Identifier.text).Nodup then .ok ⟨name.string, params.map Identifier.string⟩
      else .error ⟨.duplicateParameter name.string, some (String.ofList (Header.define name params).line)⟩ := by
  have each := arguments_params params
  have read : (if trim (listed (params.map Identifier.text)) = [] then []
      else (splitOn ',' (trim (listed (params.map Identifier.text)))).map trim) = params.map Identifier.text := by
    cases empty : params.map Identifier.text with
    | nil => rfl
    | cons param rest =>
      rw [empty] at each
      obtain ⟨nonempty, trimmed⟩ := trimmed_listed each (List.cons_ne_nil _ _)
      have absent : ∀ arg ∈ param :: rest, ',' ∉ arg := fun arg member =>
        params_without (by decide) (empty.symm ▸ member)
      rw [trimmed.trim_eq,if_neg nonempty]
      exact splitOn_listed (fun arg member => (each arg member).trimmed) absent (List.cons_ne_nil _ _) 0
  have named : ((params.map Identifier.text).find? fun param => !isName param) = none := by
    rw [List.find?_eq_none]
    intro param member
    obtain ⟨name, _, rfl⟩ := List.mem_map.mp member
    rw [isName_identifier]
    decide
  simp only [FunctionHeader.parse,parts?_define,read,named,List.map_map]
  rfl

private theorem parseCondition_branchLine (condition : Fragment) :
    parseCondition (branchLine condition) = .ok condition.text := by
  obtain ⟨logical, _⟩ := branchLine_logical condition
  have shape : branchLine condition = Keyword.branch.word ++ (' ' :: '(' :: ((condition.text ++ [')', ' ']) ++ ['{'])) := by
    simp [branchLine,headerLine,callText,listed]
  have dropped : dropLead? "niba".toList (branchLine condition) =
      some (' ' :: '(' :: ((condition.text ++ [')', ' ']) ++ ['{'])) := by
    rw [shape]
    exact dropLead?_append Keyword.branch.word _
  have unspaced : trimStart (' ' :: '(' :: ((condition.text ++ [')', ' ']) ++ ['{'])) =
      '(' :: ((condition.text ++ [')', ' ']) ++ ['{']) := by
    rw [trimStart,List.dropWhile_cons_of_pos (by decide),List.dropWhile_cons_of_neg (by decide)]
  have inner : trimEnd (condition.text ++ [')', ' ']) = condition.text ++ [')'] := by
    have split : condition.text ++ [')', ' '] = (condition.text ++ [')']) ++ spaces 1 := by
      rw [List.append_assoc]
      rfl
    rw [split,trimEnd_blanks (all_isBlank_spaces 1),trimEnd_of_last (last_append (by decide) (by decide) _)]
  have read : condition? (branchLine condition) = some condition.text := by
    simp only [condition?,logical.trimmed.trim_eq,dropped,bind,Option.bind,unspaced,List.getLast?_concat,
      List.dropLast_concat,inner,if_true,condition.trimmed.trim_eq]
  have kept : (some condition.text).filter (fun token => decide (token ≠ [])) = some condition.text := by
    rw [Option.filter_some,if_pos (decide_eq_true condition.nonempty)]
  simp only [parseCondition,read,kept]

/-- The keyword of a header. -/
def Header.keyword : Header → Keyword
  | .count _ => .loop
  | .range _ _ _ => .loop
  | .define _ _ => .define

private theorem Header.leads (header : Header) :
    Statement.isFiller header.line = false ∧ keyword? header.line = some header.keyword := by
  have space : isNamePart ' ' = false := by decide
  have paren : isNamePart '(' = false := by decide
  cases header with
  | count rounds => exact leads_word .loop _ (List.append_assoc _ _ _) paren
  | range name first last => exact leads_word .loop _ (List.append_assoc _ _ _) paren
  | define name params =>
    refine leads_word .define (' ' :: (callText name.text (params.map Identifier.text) ++ [' ', '{'])) ?_ space
    simp [Header.line,headerLine,callText]

private theorem branchLine_leads (condition : Fragment) :
    Statement.isFiller (branchLine condition) = false ∧ keyword? (branchLine condition) = some .branch := by
  refine leads_word .branch (' ' :: (callText [] [condition.text] ++ [' ', '{'])) ?_
    (by decide : isNamePart ' ' = false)
  simp [branchLine,headerLine,callText]

end Headers

section Blocks

variable {lines rest : List Line} {header : Line}

/-- The block that a header opens has the lines before its closing brace as its body. -/
private theorem collect_closed (line : Line) (opens : braces 0 header = some 1) (inner : Counted 0 0 lines)
    (layout : Layout) (trailing : Chars) (rest : List Line) :
    ∃ closing column, closing.drop (column + 1) = trailing ∧
      Block.collect line header (closed layout trailing lines ++ rest) = .ok ⟨lines, closing, column, rest⟩ := by
  obtain ⟨closing, column, behind, found⟩ := collectOpen_closed layout trailing (inner.braces 0) inner.logical rest
  refine ⟨closing, column, behind, ?_⟩
  have delta : braceDelta header = 1 := braceDelta_eq opens
  have found' : Block.collectOpen 1 (closed layout trailing lines ++ rest) = some ⟨lines, closing, column, rest⟩ :=
    found
  rw [Block.collect,delta,if_neg (by decide),found']

private theorem closedBlock_closed (line : Line) (opens : braces 0 header = some 1) (inner : Counted 0 0 lines)
    (layout : Layout) (rest : List Line) :
    ∃ closing column, Statement.closedBlock line header (closed layout [] lines ++ rest) =
      .ok ⟨lines, closing, column, rest⟩ := by
  obtain ⟨closing, column, behind, found⟩ := collect_closed line opens inner layout [] rest
  have clear : Statement.rejectTrailing ⟨lines, closing, column, rest⟩ = .ok () := by
    rw [Statement.rejectTrailing,Block.trailing,behind,if_pos (by decide)]
  refine ⟨closing, column, ?_⟩
  rw [Statement.closedBlock,found]
  simp only [bind,Except.bind,clear]
  rfl

/-- The statement that a header and the lines of a body are read as. -/
def Header.statement (body : List Line) : Header → Except Fault Statement
  | .count rounds => .ok (.loop (.count rounds.text) body)
  | .range name first last => .ok (.loop (.range name.string first.text last.text) body)
  | .define name params =>
    if (params.map Identifier.text).Nodup then
      .ok (.define ⟨name.string, params.map Identifier.string⟩ body)
    else .error ⟨.duplicateParameter name.string, some (String.ofList (Header.define name params).line)⟩

private theorem Header.read (header : Header) (inner : Counted 0 0 lines) (layout : Layout) (rest : List Line) :
    Statement.read header.line (closed layout [] lines ++ rest) =
      (header.statement lines).map fun statement => (statement, rest) := by
  obtain ⟨_, opens⟩ := header.logical
  obtain ⟨closing, column, block⟩ := closedBlock_closed header.line (opens 0) inner layout rest
  obtain ⟨_, keyword⟩ := header.leads
  unfold Statement.read
  rw [keyword]
  cases header with
  | count rounds =>
    simp only [Header.keyword,parse_count,bind,Except.bind,block]
    rfl
  | range name first last =>
    simp only [Header.keyword,parse_range,bind,Except.bind,block]
    rfl
  | define name params =>
    simp only [Header.keyword,parse_define,Header.statement]
    split
    · simp only [bind,Except.bind,block]
      rfl
    · rfl

private theorem isElseHeader_elseLine : isElseHeader elseLine = true := by
  have dropped : dropLead? "niba_atariyo".toList elseLine = some [' ', '{'] :=
    dropLead?_append Keyword.otherwise.word _
  rw [isElseHeader,logical_elseLine.trimmed.trim_eq,dropped]
  decide

private theorem stripSemicolon_elseLine : stripSemicolon elseLine = elseLine := by
  apply stripSemicolon_eq
  rw [elseLine,List.getLast?_append]
  decide

private theorem otherwise_none {block : Block} (behind : block.closing.drop (block.column + 1) = [])
    (goes : ∀ line ∈ block.rest.head?, keyword? line ≠ some .otherwise) :
    Statement.otherwise block = .ok ([], block.rest) := by
  have clear : stripSemicolon block.trailing = [] := by
    rw [Block.trailing,behind]
    rfl
  simp only [Statement.otherwise,clear,ne_eq,not_true_eq_false,if_false]
  cases rest : block.rest with
  | nil => rfl
  | cons next following =>
    rw [rest] at goes
    have other := goes next rfl
    simp only [if_pos other]
    rfl

private theorem otherwise_shared {block : Block} (gap : Nat)
    (behind : block.closing.drop (block.column + 1) = spaces gap ++ elseLine) (inner : Counted 0 0 lines)
    (layout : Layout) (after : block.rest = closed layout [] lines ++ rest) :
    Statement.otherwise block = .ok (lines, rest) := by
  have trailing : stripSemicolon block.trailing = elseLine := by
    rw [Block.trailing,behind,logical_elseLine.trimmed.trim_spaces gap,stripSemicolon_elseLine]
  have opens : braces 0 (spaces gap ++ elseLine) = some 1 := by
    rw [braces_safe (safe_else gap)]
    exact depthAfter_else gap 0
  obtain ⟨closing, column, found⟩ := closedBlock_closed block.closing opens inner layout rest
  simp only [Statement.otherwise,trailing,if_pos logical_elseLine.nonempty,isElseHeader_elseLine,if_true,behind,
    after,found,bind,Except.bind]
  rfl

private theorem otherwise_next {block : Block} (behind : block.closing.drop (block.column + 1) = [])
    (inner : Counted 0 0 lines) (layout : Layout)
    (after : block.rest = elseLine :: (closed layout [] lines ++ rest)) :
    Statement.otherwise block = .ok (lines, rest) := by
  have clear : stripSemicolon block.trailing = [] := by
    rw [Block.trailing,behind]
    rfl
  have keyword : keyword? elseLine = some .otherwise := keyword?_word .otherwise (by decide)
  obtain ⟨closing, column, found⟩ := closedBlock_closed elseLine (braces_elseLine 0) inner layout rest
  simp only [Statement.otherwise,clear,ne_eq,not_true_eq_false,if_false,after,keyword,isElseHeader_elseLine,
    if_true,found,bind,Except.bind]
  rfl

private theorem read_branch (condition : Fragment) (inner : Counted 0 0 lines) (layout : Layout)
    (goes : ∀ line ∈ rest.head?, keyword? line ≠ some .otherwise) :
    Statement.read (branchLine condition) (closed layout [] lines ++ rest) =
      .ok (.branch condition.text lines [], rest) := by
  obtain ⟨_, opens⟩ := branchLine_logical condition
  obtain ⟨closing, column, behind, found⟩ := collect_closed (branchLine condition) (opens 0) inner layout [] rest
  obtain ⟨_, keyword⟩ := branchLine_leads condition
  have other : Statement.otherwise ⟨lines, closing, column, rest⟩ = .ok ([], rest) := otherwise_none behind goes
  unfold Statement.read
  rw [keyword]
  simp only [parseCondition_branchLine,bind,Except.bind,found,other]
  rfl

private theorem read_choice (condition : Fragment) (inner : Counted 0 0 lines) (layout : Layout) {others : List Line}
    (inner' : Counted 0 0 others) (layout' : Layout) (rest : List Line) :
    Statement.read (branchLine condition) (closedElse layout lines ++ (closed layout' [] others ++ rest)) =
      .ok (.branch condition.text lines others, rest) := by
  obtain ⟨_, opens⟩ := branchLine_logical condition
  obtain ⟨_, keyword⟩ := branchLine_leads condition
  unfold Statement.read
  rw [keyword,closedElse]
  cases layout.shared with
  | some gap =>
    obtain ⟨closing, column, behind, found⟩ := collect_closed (branchLine condition) (opens 0) inner layout
      (spaces gap ++ elseLine) (closed layout' [] others ++ rest)
    have other : Statement.otherwise ⟨lines, closing, column, closed layout' [] others ++ rest⟩ = .ok (others, rest) :=
      otherwise_shared gap behind inner' layout' rfl
    simp only [parseCondition_branchLine,bind,Except.bind,found,other]
    rfl
  | none =>
    obtain ⟨closing, column, behind, found⟩ := collect_closed (branchLine condition) (opens 0) inner layout []
      (elseLine :: (closed layout' [] others ++ rest))
    have other : Statement.otherwise ⟨lines, closing, column, elseLine :: (closed layout' [] others ++ rest)⟩ =
        .ok (others, rest) := otherwise_next behind inner' layout' rfl
    simp only [parseCondition_branchLine,bind,Except.bind,List.append_assoc,List.singleton_append,found,other]
    rfl

end Blocks

namespace Program

private theorem lines_head (program : Program Layout) :
    ∀ line ∈ program.lines.head?, keyword? line ≠ some .otherwise := by
  cases program with
  | done => exact nofun
  | simple statement next =>
    rintro line ⟨⟩
    rw [statement.leads.2]
    cases statement with
    | declare isConst name expression => cases isConst <;> exact nofun
    | assign name expression => exact nofun
    | giveBack expression => exact nofun
    | call name args => exact nofun
  | block header body layout next =>
    rintro line ⟨⟩
    rw [header.leads.2]
    cases header <;> exact nofun
  | branch condition body layout next =>
    rintro line ⟨⟩
    rw [(branchLine_leads condition).2]
    exact nofun
  | choice condition body layout otherwise layout' next =>
    rintro line ⟨⟩
    rw [(branchLine_leads condition).2]
    exact nofun

/-- The statements of a program, with the lines of the bodies; none comes after a header that is
refused. -/
def items : Program Layout → List Statement.Item
  | done => []
  | simple statement next => ⟨statement.line, .ok statement.statement⟩ :: next.items
  | block header body _ next =>
    match header.statement body.lines with
    | .ok statement => ⟨header.line, .ok statement⟩ :: next.items
    | .error fault => [⟨header.line, .error fault⟩]
  | branch condition body _ next =>
    ⟨branchLine condition, .ok (.branch condition.text body.lines [])⟩ :: next.items
  | choice condition body _ otherwise _ next =>
    ⟨branchLine condition, .ok (.branch condition.text body.lines otherwise.lines)⟩ :: next.items

private theorem itemsUpTo_read {line : Line} {following rest : List Line} {statement : Statement}
    (solid : Statement.isFiller line = false) (read : Statement.read line following = .ok (statement, rest))
    (count : Nat) :
    Statement.itemsUpTo (count + 1) (line :: following) = ⟨line, .ok statement⟩ :: Statement.itemsUpTo count rest := by
  simp only [Statement.itemsUpTo,solid,read]
  rfl

private theorem itemsUpTo_lines (program : Program Layout) {count : Nat} (enough : program.lines.length ≤ count) :
    Statement.itemsUpTo count program.lines = program.items := by
  induction program generalizing count with
  | done => cases count <;> rfl
  | simple statement next rest =>
    cases count with
    | zero => cases enough
    | succ count =>
      have fewer : next.lines.length ≤ count := Nat.le_of_succ_le_succ enough
      rw [lines,itemsUpTo_read statement.leads.1 (statement.read _),rest fewer,items]
  | block header body layout next _ rest =>
    cases count with
    | zero => cases enough
    | succ count =>
      have fewer : next.lines.length ≤ count := by
        simp only [lines,List.length_cons,List.length_append] at enough
        omega
      have read := header.read body.counted layout next.lines
      rw [lines,items]
      -- no statement is read after a header with equal parameters
      cases accepted : header.statement body.lines with
      | error fault =>
        rw [accepted] at read
        simp only [Statement.itemsUpTo,header.leads.1,read]
        rfl
      | ok statement =>
        rw [accepted] at read
        rw [itemsUpTo_read header.leads.1 read,rest fewer]
  | branch condition body layout next _ rest =>
    cases count with
    | zero => cases enough
    | succ count =>
      have fewer : next.lines.length ≤ count := by
        simp only [lines,List.length_cons,List.length_append] at enough
        omega
      have read := read_branch condition body.counted layout next.lines_head
      rw [lines,itemsUpTo_read (branchLine_leads condition).1 read,rest fewer,items]
  | choice condition body layout otherwise layout' next _ _ rest =>
    cases count with
    | zero => cases enough
    | succ count =>
      have fewer : next.lines.length ≤ count := by
        simp only [lines,List.length_cons,List.length_append] at enough
        omega
      have read := read_choice condition body.counted layout otherwise.counted layout' next.lines
      rw [lines,itemsUpTo_read (branchLine_leads condition).1 read,rest fewer,items]

/-- The statements read from the lines of a program are the statements of the program. -/
theorem items_lines (program : Program Layout) : Statement.items program.lines = program.items :=
  program.itemsUpTo_lines (Nat.le_refl _)

end Program

end Inyandiko
