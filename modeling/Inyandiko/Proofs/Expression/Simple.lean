import Inyandiko.Proofs.Expression.Search

/-! Literals, names and paths among spelled expressions. A leaf is read as what it spells. A token
with an operator or parentheses is none of them, apart from a minus right before digits. -/
namespace Inyandiko

open Text

section Quotes

private theorem head_escapeQuotes (content : Chars) : (escapeQuotes content).head? ≠ some '\'' := by
  cases content with
  | nil => exact nofun
  | cons c tail =>
    by_cases quote : c = '\''
    · rw [escapeQuotes,if_pos quote]
      exact fun same => absurd (Option.some.inj same) (by decide)
    · rw [escapeQuotes,if_neg quote]
      exact fun same => quote (Option.some.inj same)

private theorem unescapeQuotes_escapeQuotes (content : Chars) : unescapeQuotes (escapeQuotes content) = content := by
  induction content with
  | nil => rfl
  | cons c tail ih =>
    by_cases quote : c = '\''
    · subst quote
      rw [escapeQuotes,if_pos rfl,unescapeQuotes,ih]
    · rw [escapeQuotes,if_neg quote]
      have head := head_escapeQuotes tail
      rw [unescapeQuotes.eq_3 _ _ ?_,ih]
      intro rest _ same
      rw [same] at head
      exact head rfl

private theorem quoteEnd?_escapeQuotes (content : Chars) {previous : Char} (index : Nat) (rest : Chars)
    (closed : (previous :: content).getLast? ≠ some '\\') :
    quoteEnd? '\'' previous index (escapeQuotes content ++ '\'' :: rest) =
      some (index + (escapeQuotes content).length) := by
  induction content generalizing previous index with
  | nil =>
    have open_ : previous ≠ '\\' := fun same => closed (congrArg some same)
    simp [escapeQuotes,quoteEnd?,open_]
  | cons c tail ih =>
    have closed' : (c :: tail).getLast? ≠ some '\\' := by rwa [List.getLast?_cons_cons] at closed
    by_cases quote : c = '\''
    · subst quote
      rw [escapeQuotes,if_pos rfl]
      simp only [List.cons_append,quoteEnd?]
      rw [if_neg (by simp),if_neg (by simp),ih _ closed']
      simp only [List.length_cons]
      congr 1
      omega
    · rw [escapeQuotes,if_neg quote]
      simp only [List.cons_append,quoteEnd?]
      rw [if_neg (by simp [quote]),ih _ closed']
      simp only [List.length_cons]
      congr 1
      omega

end Quotes

section Integers

private theorem withoutMargins_of_trimmed {text : Chars} (trimmed : Trimmed text) :
    Numeral.withoutMargins text = text := by
  have kept {text : Chars} (first : text.head?.any isBlank = false) :
      text.dropWhile Numeral.isMargin = text := by
    cases text with
    | nil => rfl
    | cons c rest =>
      have solid : isBlank c = false := first
      simp [Numeral.isMargin,solid]
  have last : text.reverse.head?.any isBlank = false := by
    rw [List.head?_reverse]
    exact trimmed.last
  rw [Numeral.withoutMargins,kept trimmed.first,kept last,List.reverse_reverse]

private theorem digitRun_decimal {digits : Chars} (decimal : digits.all isDecimal = true) {started : Bool}
    (some_ : started = true ∨ digits ≠ []) :
    Numeral.digitRun started digits = some (digits.filterMap decimalValue?, []) := by
  induction digits generalizing started with
  | nil =>
    rcases some_ with rfl | nonempty
    · rfl
    · exact absurd rfl nonempty
  | cons c rest ih =>
    simp only [List.all_cons,Bool.and_eq_true] at decimal
    obtain ⟨digit, found⟩ := Option.isSome_iff_exists.mp decimal.1
    simp only [Numeral.digitRun,found,ih decimal.2 (.inl rfl),Option.map_some,List.filterMap_cons]

private theorem length_decimals {digits : Chars} (decimal : digits.all isDecimal = true) :
    (digits.filterMap decimalValue?).length = digits.length := by
  induction digits with
  | nil => rfl
  | cons c rest ih =>
    simp only [List.all_cons,Bool.and_eq_true] at decimal
    obtain ⟨digit, found⟩ := Option.isSome_iff_exists.mp decimal.1
    simp only [List.filterMap_cons,found,List.length_cons,ih decimal.2]

/-- Whether a text is a decimal number without a sign. -/
private def isUnsigned (body : Chars) : Bool :=
  !(body.takeWhile isDecimal).isEmpty &&
    match body.dropWhile isDecimal with
    | [] => true
    | '.' :: fraction => !fraction.isEmpty && fraction.all isDecimal
    | _ => false

private theorem isNumeral_eq (token : Token) :
    isNumeral token = isUnsigned (if token.head? = some '-' then token.drop 1 else token) := rfl

private theorem isNumeral_sign (body : Chars) : isNumeral ('-' :: body) = isUnsigned body := by
  simp [isNumeral_eq]

private theorem isUnsigned_stopped {digits : Chars} (decimal : digits.all isDecimal = true) {c : Char}
    (undecimal : isDecimal c = false) (unpoint : c ≠ '.') (rest : Chars) :
    isUnsigned (digits ++ c :: rest) = false := by
  have left := (span_append decimal (show (c :: rest).head?.any isDecimal = false from undecimal)).2
  simp [isUnsigned,left,unpoint]

/-- A character that is neither a digit nor a sign cannot begin a number. -/
theorem isNumeral_first {c : Char} (undecimal : isDecimal c = false) (unsigned : c ≠ '-')
    (rest : Chars) : isNumeral (c :: rest) = false := by
  simp [isNumeral,unsigned,undecimal]

private theorem isNumeral_minus {c : Char} (undecimal : isDecimal c = false) (rest : Chars) :
    isNumeral ('-' :: c :: rest) = false := by
  simp [isNumeral,undecimal]

namespace IntegerLiteral

variable (literal : IntegerLiteral)

theorem ne_of_mem {c : Char} (member : c ∈ literal.digits) (other : Char)
    (undecimal : isDecimal other = false) : c ≠ other := by
  intro same
  have decimal := List.all_eq_true.mp literal.decimal c member
  rw [same,undecimal] at decimal
  cases decimal

private theorem sign_digits : Numeral.sign literal.digits = (false, literal.digits) := by
  have differs (other : Char) (undecimal : isDecimal other = false) : ∀ c ∈ literal.digits, c ≠ other :=
    fun c member => literal.ne_of_mem member other undecimal
  cases digits : literal.digits with
  | nil => rfl
  | cons c rest =>
    rw [digits] at differs
    have minus := differs '-' (by decide) c List.mem_cons_self
    have plus := differs '+' (by decide) c List.mem_cons_self
    simp [Numeral.sign,minus,plus]

theorem trimmed : Trimmed literal.digits := (Expression.Spelled.leaf 0 (.integer literal)).trimmed

theorem readInt_digits : Numeral.readInt (String.ofList literal.digits) = .ok literal.value := by
  have short : ¬digitLimit < literal.digits.length := Nat.not_lt.mpr literal.short
  simp only [Numeral.readInt,String.toList_ofList,withoutMargins_of_trimmed literal.trimmed,
    sign_digits,digitRun_decimal literal.decimal (.inr literal.nonempty),
    length_decimals literal.decimal,short,if_false]
  rfl

theorem readInt_minus : Numeral.readInt (String.ofList ('-' :: literal.digits)) = .ok (-literal.value) := by
  have trimmed : Trimmed ('-' :: literal.digits) :=
    (Expression.Spelled.unary .minus 0 (Nat.le_refl _) (.leaf _ (.integer literal))).trimmed
  have short : ¬digitLimit < literal.digits.length := Nat.not_lt.mpr literal.short
  simp only [Numeral.readInt,String.toList_ofList,withoutMargins_of_trimmed trimmed,Numeral.sign,
    digitRun_decimal literal.decimal (.inr literal.nonempty),length_decimals literal.decimal,short,
    if_false]
  rfl

theorem words : literal.digits ≠ [] ∧ literal.digits.all isWordChar = true :=
  (Leaf.integer literal).word_or_quoted.resolve_right fun ⟨_, same⟩ => nomatch same

private theorem whole : literal.digits.contains '.' = false := by
  rw [← Bool.not_eq_true,List.contains_iff_mem]
  exact fun member => literal.ne_of_mem member '.' (by decide) rfl

private theorem head_digits (rest : Chars) : (literal.digits ++ rest).head? ≠ some '-' := by
  cases digits : literal.digits with
  | nil => exact absurd digits literal.nonempty
  | cons c tail =>
    have differs := literal.ne_of_mem (digits ▸ List.mem_cons_self) '-' (by decide)
    exact fun same => differs (Option.some.inj same)

private theorem isUnsigned_digits : isUnsigned literal.digits = true := by
  obtain ⟨taken, left⟩ := span_append literal.decimal (show ([] : Chars).head?.any isDecimal = false from rfl)
  rw [List.append_nil] at taken left
  simp [isUnsigned,taken,left,literal.nonempty]

private theorem isNumeral_digits : isNumeral literal.digits = true := by
  have unsigned := literal.head_digits []
  rw [List.append_nil] at unsigned
  rw [isNumeral_eq,if_neg unsigned]
  exact literal.isUnsigned_digits

private theorem isNumeral_minus_digits : isNumeral ('-' :: literal.digits) = true := by
  rw [isNumeral_sign]
  exact literal.isUnsigned_digits

private theorem isNumeral_stopped {c : Char} (undecimal : isDecimal c = false) (unpoint : c ≠ '.') (rest : Chars) :
    isNumeral (literal.digits ++ c :: rest) = false ∧
      isNumeral ('-' :: (literal.digits ++ c :: rest)) = false := by
  have stopped := isUnsigned_stopped literal.decimal undecimal unpoint rest
  constructor
  · rw [isNumeral_eq,if_neg (literal.head_digits _)]
    exact stopped
  · rw [isNumeral_sign]
    exact stopped

end IntegerLiteral

end Integers

/-- A token that is no text, no document, no word, no name and no path. -/
structure Compound (token : Chars) : Prop where
  unquoted : textLiteral? token = .ok none
  unbracketed : isBracketed token = false
  unreserved : wordLiteral? token = none
  unnamed : isName token = false
  pathless : Path.parse token = .ok none

theorem wordLiteral?_eq_none {token : Chars} (odd : token.all isNamePart = false) :
    wordLiteral? token = none := by
  have differs (word : Chars) (plain : word.all isNamePart = true) : token ≠ word := by
    intro same
    rw [same,plain] at odd
    cases odd
  have true_ := differs "true".toList (by decide)
  have false_ := differs "false".toList (by decide)
  have null := differs "null".toList (by decide)
  have undefined := differs "undefined".toList (by decide)
  rw [wordLiteral?,if_neg true_,if_neg false_,if_neg (by simp only [null,undefined]; decide)]

/-- The characters that a text or a document begins with. -/
def openers : List Char := ['\'', '"', '\x7b', '[']

theorem unquoted_unbracketed {c : Char} (other : c ∉ openers) (rest : Chars) :
    textLiteral? (c :: rest) = .ok none ∧ isBracketed (c :: rest) = false := by
  simp only [openers,List.mem_cons,List.not_mem_nil,or_false,not_or] at other
  simp [textLiteral?,isBracketed,other]

/-- The characters that parentheses and operators with one operand begin with. -/
def marks : List Char := ['(', '!', '-', '+']

theorem Compound.of_mark {c : Char} (mark : c ∈ marks) (rest : Chars) : Compound (c :: rest) := by
  have all : ∀ c ∈ marks, c ∉ openers ∧ isNameStart c = false ∧ isNamePart c = false :=
    forall_of_all (by decide)
  obtain ⟨other, start, part⟩ := all c mark
  obtain ⟨unquoted, unbracketed⟩ := unquoted_unbracketed other rest
  refine ⟨unquoted, unbracketed, wordLiteral?_eq_none (by simp [part]), ?_, ?_⟩
  · rw [isName,leadingName?_none start]
  · rw [Path.parse,leadingName?_none start]

/-- The characters that may stand right behind an operand with an operator after it. -/
def follows : List Char := ' ' :: Operator.starts

private theorem follows_facts {c : Char} (member : c ∈ follows) :
    isDecimal c = false ∧ isNamePart c = false ∧ c ≠ '.' ∧ c ≠ '[' ∧ c ≠ '\n' := by
  have all : ∀ c ∈ follows,
      isDecimal c = false ∧ isNamePart c = false ∧ c ≠ '.' ∧ c ≠ '[' ∧ c ≠ '\n' := forall_of_all (by decide)
  exact all c member

theorem opener_of_isWordChar {c : Char} (word : isWordChar c = true) : c ∉ openers := by
  intro listed
  have none : ∀ d ∈ openers, isWordChar d = false := forall_of_all (by decide)
  rw [none c listed] at word
  cases word

private theorem unquoted_unbracketed_word {text : Chars} (nonempty : text ≠ [])
    (words : text.all isWordChar = true) : textLiteral? text = .ok none ∧ isBracketed text = false := by
  cases text with
  | nil => exact absurd rfl nonempty
  | cons c rest =>
    rw [List.all_cons,Bool.and_eq_true] at words
    exact unquoted_unbracketed (opener_of_isWordChar words.1) rest

private theorem Compound.of_word {text : Chars} (nonempty : text ≠ []) (words : text.all isWordChar = true)
    {c : Char} (member : c ∈ follows) (rest : Chars) (unnamed : isName (text ++ c :: rest) = false)
    (pathless : Path.parse (text ++ c :: rest) = .ok none) : Compound (text ++ c :: rest) := by
  obtain ⟨_, part, _⟩ := follows_facts member
  cases text with
  | nil => exact absurd rfl nonempty
  | cons d tail =>
    rw [List.all_cons,Bool.and_eq_true] at words
    have plain := unquoted_unbracketed (opener_of_isWordChar words.1) (tail ++ c :: rest)
    exact ⟨plain.1, plain.2, wordLiteral?_eq_none (by simp [part]), unnamed, pathless⟩

private theorem compound_identifier {name : Chars} (identifier : isIdentifier name = true) {c : Char}
    (member : c ∈ follows) (rest : Chars) : Compound (name ++ c :: rest) := by
  obtain ⟨_, part, point, bracket, line⟩ := follows_facts member
  obtain ⟨nonempty, words⟩ := all_isWordChar_identifier identifier
  have read : leadingName? (name ++ c :: rest) = some (name, c :: rest) :=
    leadingName?_append identifier part
  apply Compound.of_word nonempty words member
  · simp [isName,read,line]
  · simp [Path.parse,read,Path.steps,point,bracket,Except.map]

private theorem IntegerLiteral.leadingName?_eq_none (literal : IntegerLiteral) (rest : Chars) :
    leadingName? (literal.digits ++ rest) = none := by
  have decimal := literal.decimal
  cases digits : literal.digits with
  | nil => exact absurd digits literal.nonempty
  | cons c tail =>
    rw [digits,List.all_cons,Bool.and_eq_true] at decimal
    exact leadingName?_none (isNameStart_of_isDecimal decimal.1) _

private theorem isIdentifier_word (word : ValueWord) : isIdentifier word.text = true := by
  cases word <;> decide

private theorem quoteEnd?_quoted (text : QuotedText) (rest : Chars) :
    quoteEnd? '\'' '\'' 1 (escapeQuotes text.content ++ '\'' :: rest) =
      some (1 + (escapeQuotes text.content).length) := by
  apply quoteEnd?_escapeQuotes
  have closed := text.closed
  cases content : text.content with
  | nil => exact fun same => absurd (Option.some.inj same) (by decide)
  | cons c tail => rwa [List.getLast?_cons_cons,← content]

private theorem Leaf.compound (leaf : Leaf) {c : Char} (member : c ∈ follows) (rest : Chars) :
    Compound (leaf.text ++ c :: rest) := by
  cases leaf with
  | integer literal =>
    have words := literal.words
    apply Compound.of_word words.1 words.2 member
    · rw [isName,literal.leadingName?_eq_none]
    · rw [Path.parse,literal.leadingName?_eq_none]
  | word kind => exact compound_identifier (isIdentifier_word kind) member rest
  | name name => exact compound_identifier name.identifier member rest
  | quoted text =>
    obtain ⟨_, part, _⟩ := follows_facts member
    have ends := quoteEnd?_quoted text (c :: rest)
    refine ⟨?_, rfl, wordLiteral?_eq_none (by simp [part]), rfl, rfl⟩
    have longer : ¬1 + (escapeQuotes text.content).length =
        (escapeQuotes text.content).length + (rest.length + 1 + 1) := by omega
    simp [Leaf.text,textLiteral?,ends,longer]

section Values

variable (lookup : String → Option Value) (heap : Heap)

theorem Compound.simpleValue?_unbound {token : Chars} (compound : Compound token)
    (numberless : isNumeral token = false) (unbound : lookup (String.ofList token) = none) :
    Inyandiko.simpleValue? lookup token heap = .ok (none, heap) := by
  simp only [Inyandiko.simpleValue?,compound.unquoted,documentLiteral?,compound.unbracketed,
    numberLiteral?,numberless,compound.unreserved,unbound,resolvePath,compound.pathless]
  rfl

/-- What is no name is not bound where only names are. -/
theorem unbound_of_unnamed {lookup : String → Option Value} {token : Chars}
    (names : ∀ name, (lookup name).isSome = true → isName name.toList = true) (unnamed : isName token = false) :
    lookup (String.ofList token) = none := by
  cases found : lookup (String.ofList token) with
  | none => rfl
  | some value =>
    have named := names (String.ofList token) (by rw [found]; rfl)
    rw [String.toList_ofList,unnamed] at named
    cases named

theorem Compound.simpleValue? {token : Chars} (compound : Compound token)
    (numberless : isNumeral token = false)
    (names : ∀ name, (lookup name).isSome = true → isName name.toList = true) :
    simpleValue? lookup token heap = .ok (none, heap) :=
  compound.simpleValue?_unbound lookup heap numberless (unbound_of_unnamed names compound.unnamed)

private theorem simpleValue?_numeral {token : Chars}
    (unquoted : textLiteral? token = .ok none) (unbracketed : isBracketed token = false)
    (numeral : isNumeral token = true) (whole : token.contains '.' = false) {number : Int}
    (read : Numeral.readInt (String.ofList token) = .ok number) :
    simpleValue? lookup token heap = .ok (some (.int number), heap) := by
  simp only [simpleValue?,unquoted,documentLiteral?,unbracketed,numberLiteral?,numeral,whole,read]
  rfl

theorem simpleValue?_integer (literal : IntegerLiteral) :
    simpleValue? lookup literal.digits heap = .ok (some (.int literal.value), heap) := by
  have words := literal.words
  obtain ⟨unquoted, unbracketed⟩ := unquoted_unbracketed_word words.1 words.2
  refine simpleValue?_numeral lookup heap unquoted unbracketed literal.isNumeral_digits ?_
    literal.readInt_digits
  exact literal.whole

/-- A minus right before digits is read as a part of the number. -/
theorem simpleValue?_minus (literal : IntegerLiteral) :
    simpleValue? lookup ('-' :: literal.digits) heap = .ok (some (.int (-literal.value)), heap) := by
  have compound := Compound.of_mark (c := '-') (by decide) literal.digits
  refine simpleValue?_numeral lookup heap compound.unquoted compound.unbracketed
    literal.isNumeral_minus_digits ?_ literal.readInt_minus
  rw [List.contains_cons,literal.whole]
  rfl

theorem simpleValue?_quoted (text : QuotedText) :
    simpleValue? lookup (Leaf.quoted text).text heap =
      .ok (some (.text (String.ofList text.content)), heap) := by
  have ends := quoteEnd?_quoted text []
  have whole : 1 + (escapeQuotes text.content).length = (escapeQuotes text.content).length + 1 := by omega
  have read : textLiteral? (Leaf.quoted text).text =
      .ok (some (.text (String.ofList text.content))) := by
    simp [Leaf.text,textLiteral?,ends,whole,unescapeQuotes_escapeQuotes]
  simp only [simpleValue?,read]
  rfl

theorem identifier_first {name : Chars} (identifier : isIdentifier name = true) :
    ∃ c rest, name = c :: rest ∧ isDecimal c = false ∧ c ≠ '-' := by
  cases name with
  | nil => cases identifier
  | cons c rest =>
    simp only [isIdentifier,Bool.and_eq_true] at identifier
    have word : isWordChar c = true := by simp [isWordChar,isNamePart,identifier.1]
    refine ⟨c, rest, rfl, ?_, isWordChar_ne word (by decide)⟩
    cases decimal : isDecimal c with
    | false => rfl
    | true =>
      rw [isNameStart_of_isDecimal decimal] at identifier
      cases identifier.1

private theorem identifier_facts {name : Chars} (identifier : isIdentifier name = true) :
    textLiteral? name = .ok none ∧ isBracketed name = false ∧ isNumeral name = false := by
  obtain ⟨nonempty, words⟩ := all_isWordChar_identifier identifier
  obtain ⟨unquoted, unbracketed⟩ := unquoted_unbracketed_word nonempty words
  refine ⟨unquoted, unbracketed, ?_⟩
  obtain ⟨c, rest, rfl, undecimal, unsigned⟩ := identifier_first identifier
  exact isNumeral_first undecimal unsigned rest

theorem simpleValue?_word (word : ValueWord) :
    simpleValue? lookup word.text heap = .ok (some word.value, heap) := by
  obtain ⟨unquoted, unbracketed, numberless⟩ := identifier_facts (isIdentifier_word word)
  have read : wordLiteral? word.text = some word.value := by cases word <;> rfl
  simp only [simpleValue?,unquoted,documentLiteral?,unbracketed,numberLiteral?,numberless,read]
  rfl

theorem simpleValue?_name (name : VariableName) :
    simpleValue? lookup name.text heap = .ok (lookup (String.ofList name.text), heap) := by
  obtain ⟨unquoted, unbracketed, numberless⟩ := identifier_facts name.identifier
  have path : Path.parse name.text = .ok (some (String.ofList name.text, [])) := by
    have read := leadingName?_append name.identifier (show ([] : Chars).head?.any isNamePart = false from rfl)
    rw [List.append_nil] at read
    rw [Path.parse,read]
    rfl
  cases found : lookup (String.ofList name.text) with
  | some value =>
    simp only [simpleValue?,unquoted,documentLiteral?,unbracketed,numberLiteral?,numberless,
      name.unreserved,found]
    rfl
  | none =>
    simp only [simpleValue?,unquoted,documentLiteral?,unbracketed,numberLiteral?,numberless,
      name.unreserved,resolvePath,path,found]
    rfl

end Values

theorem operator_follows (operator : Operator) (gap : Nat) (rest : Chars) :
    ∃ c more, spaces gap ++ (operator.spelling ++ rest) = c :: more ∧ c ∈ follows := by
  cases gap with
  | zero =>
    obtain ⟨more, spelled⟩ := operator.spelling_eq
    refine ⟨operator.first, more ++ rest, ?_, List.mem_cons_of_mem _ operator.first_mem⟩
    rw [spelled]
    rfl
  | succ gap => exact ⟨' ', _, rfl, List.mem_cons_self⟩

theorem Unary.char_mark (operator : Unary) : operator.char ∈ marks := by
  cases operator <;> decide

private theorem Leaf.integer_or_first (leaf : Leaf) :
    (∃ literal, leaf = .integer literal) ∨
      ∃ c rest, leaf.text = c :: rest ∧ isDecimal c = false ∧ c ≠ '-' := by
  cases leaf with
  | integer literal => exact .inl ⟨literal, rfl⟩
  | word kind => exact .inr (identifier_first (isIdentifier_word kind))
  | name name => exact .inr (identifier_first name.identifier)
  | quoted text => exact .inr ⟨'\'', _, rfl, by decide, by decide⟩

/-- A leaf with an operator behind it is no number, with a minus before it or without. -/
private theorem Leaf.numberless (leaf : Leaf) {c : Char} (member : c ∈ follows) (rest : Chars) :
    isNumeral (leaf.text ++ c :: rest) = false ∧ isNumeral ('-' :: (leaf.text ++ c :: rest)) = false := by
  obtain ⟨undecimal, _, point, _⟩ := follows_facts member
  rcases leaf.integer_or_first with ⟨literal, rfl⟩ | ⟨d, tail, spelled, undecimal', unsigned⟩
  · exact literal.isNumeral_stopped undecimal point rest
  · rw [spelled]
    exact ⟨isNumeral_first undecimal' unsigned _, isNumeral_minus undecimal' _⟩

namespace Expression.Spelled

variable {least : Nat} {expression : Expression} {text : Chars}

/-- A spelled expression with an operator behind it is nothing simple. -/
theorem compound (spelled : Spelled least expression text) {c : Char} (member : c ∈ follows)
    (rest : Chars) : Compound (text ++ c :: rest) := by
  induction spelled generalizing c rest with
  | leaf _ leaf => exact leaf.compound member rest
  | unary operator gap fits inner ih => exact Compound.of_mark operator.char_mark _
  | @binary _ _ _ _ rightText operator before after fits one two left right =>
    obtain ⟨d, more, spelled, member'⟩ := operator_follows operator before
      (spaces after ++ (rightText ++ c :: rest))
    simp only [List.append_assoc]
    rw [spelled]
    exact left member' more
  | parens before after needed inner ih => exact Compound.of_mark (by decide) _

/-- An operand that stands by itself after a minus is no number with something behind it. -/
private theorem numberless_minus (spelled : Spelled unaryTier expression text) {c : Char} (member : c ∈ follows)
    (gap : Nat) (rest : Chars) : isNumeral ('-' :: (spaces gap ++ (text ++ c :: rest))) = false := by
  cases gap with
  | succ gap => exact isNumeral_minus (by decide) _
  | zero =>
    cases spelled with
    | leaf _ leaf => exact (leaf.numberless member rest).2
    | unary operator gap fits inner => exact isNumeral_minus (by cases operator <;> decide) _
    | binary operator before after fits one two => exact absurd fits (Nat.not_le.mpr operator.tier_lt)
    | parens before after needed inner => exact isNumeral_minus (by decide) _

/-- An operator with one operand is no number, except for a minus right before digits. -/
theorem numberless_unary (operator : Unary) (gap : Nat) (spelled : Spelled unaryTier expression text) :
    isNumeral (operator.char :: (spaces gap ++ text)) = false ∨
      operator = .minus ∧ gap = 0 ∧ ∃ literal, expression = .leaf (.integer literal) ∧ text = literal.digits := by
  cases operator with
  | not | plus => exact .inl (isNumeral_first (by decide) (by decide) _)
  | minus =>
    cases gap with
    | succ gap => exact .inl (isNumeral_minus (by decide) _)
    | zero =>
      cases spelled with
      | leaf _ leaf =>
        rcases leaf.integer_or_first with ⟨literal, rfl⟩ | ⟨c, rest, first, undecimal, _⟩
        · exact .inr ⟨rfl, rfl, literal, rfl, rfl⟩
        · rw [first]
          exact .inl (isNumeral_minus undecimal _)
      | unary operator gap fits inner => exact .inl (isNumeral_minus (by cases operator <;> decide) _)
      | binary operator before after fits one two => exact absurd fits (Nat.not_le.mpr operator.tier_lt)
      | parens before after needed inner => exact .inl (isNumeral_minus (by decide) _)

/-- A spelled expression with an operator behind it is no number. -/
theorem numberless (spelled : Spelled least expression text) {c : Char} (member : c ∈ follows)
    (rest : Chars) : isNumeral (text ++ c :: rest) = false := by
  induction spelled generalizing c rest with
  | leaf _ leaf => exact (leaf.numberless member rest).1
  | unary operator gap fits inner ih =>
    rw [List.cons_append,List.append_assoc]
    cases operator with
    | not | plus => exact isNumeral_first (by decide) (by decide) _
    | minus => exact inner.numberless_minus member gap rest
  | @binary _ _ _ _ rightText operator before after fits one two left right =>
    obtain ⟨d, more, spelled, member'⟩ := operator_follows operator before
      (spaces after ++ (rightText ++ c :: rest))
    simp only [List.append_assoc]
    rw [spelled]
    exact left member' more
  | parens before after needed inner ih => exact isNumeral_first (by decide) (by decide) _

end Expression.Spelled

end Inyandiko
