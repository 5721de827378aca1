import Inyandiko.Proofs.CallReading
import Inyandiko.Statement.Exchange

/-! Lists of names in imports and exports. A list is read back as the pairs it was written from, whatever blanks and
empty slots it has and whichever words the names are. The dependency of an import may hold anything but a closing
brace: the list ends at the last brace, and the dependency at the last quote. -/
namespace Inyandiko

open Text Source

/-- A pair of names as it is written: a name that stands for itself, or a name and the one that it goes by. -/
inductive Specifies : String × String → Chars → Prop
  | own {name : String} (identifier : isIdentifier name.toList = true) : Specifies (name, name) name.toList
  | renamed {name other : String} {before after : Chars} (identifier : isIdentifier name.toList = true)
    (identifier' : isIdentifier other.toList = true) (apart : before ≠ [] ∧ before.all isBlank = true)
    (apart' : after ≠ [] ∧ after.all isBlank = true) :
    Specifies (name, other) (name.toList ++ (before ++ ("as".toList ++ (after ++ other.toList))))

/-- The slots of a list, of which some may be empty. -/
inductive Slots : List (String × String) → List Chars → Prop
  | nil : Slots [] []
  | vacant {pairs : List (String × String)} {slots : List Chars} (rest : Slots pairs slots) : Slots pairs ([] :: slots)
  | taken {pair : String × String} {token : Chars} {pairs : List (String × String)} {slots : List Chars}
    (specifies : Specifies pair token) (rest : Slots pairs slots) : Slots (pair :: pairs) (token :: slots)

/-- The texts that list pairs of names, with commas between the slots and blanks around what is in them. -/
def ListsPairs (pairs : List (String × String)) (text : Chars) : Prop :=
  ∃ slots, Slots pairs slots ∧ Listing slots text

/-- The text of an import of the pairs that are listed in its braces. -/
inductive ImportsPairs (pairs : List (String × String)) (dependency : String) : Chars → Prop
  | intro {gap inner gap' gap'' : Chars} {quote : Char} (blank : gap.all isBlank = true) (lists : ListsPairs pairs inner)
    (blank' : gap'.all isBlank = true) (blank'' : gap''.all isBlank = true) (quotes : quote = '\'' ∨ quote = '"') :
    ImportsPairs pairs dependency ("import".toList ++ (gap ++ '{' :: (inner ++ '}' ::
      (gap' ++ ("from".toList ++ (gap'' ++ quote :: (dependency.toList ++ [quote])))))))

/-- The text of an export of the pairs that are listed in its braces. -/
inductive ExportsPairs (pairs : List (String × String)) : Chars → Prop
  | intro {gap inner : Chars} (blank : gap.all isBlank = true) (lists : ListsPairs pairs inner) :
    ExportsPairs pairs ("export".toList ++ (gap ++ '{' :: (inner ++ ['}'])))

section Specifiers

private theorem dropBlanks?_append {pad text : Chars} (apart : pad ≠ [] ∧ pad.all isBlank = true)
    (solid : text.head?.any isBlank = false) : dropBlanks? (pad ++ text) = some text := by
  obtain ⟨c, pad, rfl⟩ := List.exists_cons_of_ne_nil apart.1
  obtain ⟨blank, blanks⟩ := by simpa only [List.all_cons,Bool.and_eq_true] using apart.2
  rw [List.cons_append,dropBlanks?,if_pos blank,trimStart_blanks blanks,trimStart_of_first solid]

private theorem stops_blanks {pad : Chars} (apart : pad ≠ [] ∧ pad.all isBlank = true) (text : Chars) :
    (pad ++ text).head?.any isNamePart = false := by
  obtain ⟨c, pad, rfl⟩ := List.exists_cons_of_ne_nil apart.1
  exact not_isNamePart_of_isBlank (List.all_eq_true.mp apart.2 c List.mem_cons_self)

private theorem leadingName?_identifier {name : Chars} (identifier : isIdentifier name = true) :
    leadingName? name = some (name, []) := by
  have read := leadingName?_append identifier (show ([] : Chars).head?.any isNamePart = false from rfl)
  rwa [List.append_nil] at read

private theorem trimmed_identifier {name : Chars} (identifier : isIdentifier name = true) : Trimmed name :=
  trimmed_words (all_isWordChar_identifier identifier).2

variable {pair : String × String} {token : Chars} {pairs : List (String × String)} {slots : List Chars} {text : Chars}

private theorem Specifies.read (specifies : Specifies pair token) : specifier? token = some pair := by
  cases specifies with
  | own identifier =>
    simp only [specifier?,leadingName?_identifier identifier,bind,Option.bind,if_true,String.ofList_toList]
    rfl
  | @renamed name other before after identifier identifier' apart apart' =>
    have some_ : before ++ ("as".toList ++ (after ++ other.toList)) ≠ [] := by simp [apart.1]
    have first : leadingName? (name.toList ++ (before ++ ("as".toList ++ (after ++ other.toList)))) = _ :=
      leadingName?_append identifier (stops_blanks apart _)
    have second : dropBlanks? (before ++ ("as".toList ++ (after ++ other.toList))) = _ :=
      dropBlanks?_append apart rfl
    have third : dropBlanks? (after ++ other.toList) = _ :=
      dropBlanks?_append apart' (trimmed_identifier identifier').first
    simp only [specifier?,first,second,third,leadingName?_identifier identifier',dropLead?_append,some_,bind,Option.bind,
      if_true,if_false,String.ofList_toList]
    rfl

private theorem Specifies.nonempty (specifies : Specifies pair token) : token ≠ [] := by
  rintro rfl
  cases specifies.read

private theorem Specifies.trimmed (specifies : Specifies pair token) : Trimmed token := by
  cases specifies with
  | own identifier => exact trimmed_identifier identifier
  | @renamed name other before after identifier identifier' =>
    refine ⟨first_append (all_isWordChar_identifier identifier).1 (trimmed_identifier identifier).first _, ?_⟩
    simp only [← List.append_assoc]
    exact last_append (all_isWordChar_identifier identifier').1 (trimmed_identifier identifier').last _

private theorem not_mem_blanks {pad : Chars} (blank : pad.all isBlank = true) {c : Char} (solid : isBlank c = false) :
    c ∉ pad :=
  fun member => ne_of_isBlank (List.all_eq_true.mp blank c member) solid rfl

private theorem Specifies.undivided (specifies : Specifies pair token) : ',' ∉ token := by
  have name {text : Chars} (identifier : isIdentifier text = true) : ',' ∉ text := by
    intro member
    have word := List.all_eq_true.mp (all_isWordChar_identifier identifier).2 ',' member
    revert word
    decide
  cases specifies with
  | own identifier => exact name identifier
  | renamed identifier identifier' apart apart' =>
    simp only [List.mem_append,not_or]
    exact ⟨name identifier, not_mem_blanks apart.2 (by decide), by decide, not_mem_blanks apart'.2 (by decide),
      name identifier'⟩

private theorem splitOn_listing (listing : Listing slots text) (some_ : slots ≠ [])
    (each : ∀ token ∈ slots, Trimmed token ∧ ',' ∉ token) : (splitOn ',' text).map trim = slots := by
  have whole {before token after : Chars} (blankBefore : before.all isBlank = true) (blankAfter : after.all isBlank = true)
      (absent : ',' ∉ token) : ',' ∉ before ++ token ++ after := by
    simp only [List.mem_append,not_or]
    exact ⟨⟨not_mem_blanks blankBefore (by decide), absent⟩, not_mem_blanks blankAfter (by decide)⟩
  induction listing with
  | none => exact absurd rfl some_
  | last blankBefore blankAfter =>
    obtain ⟨trimmed, absent⟩ := each _ List.mem_cons_self
    rw [splitOn_piece (whole blankBefore blankAfter absent),List.map_singleton,trimmed.trim_pad blankBefore blankAfter]
  | more blankBefore blankAfter some_' _ ih =>
    obtain ⟨trimmed, absent⟩ := each _ List.mem_cons_self
    rw [splitOn_append (whole blankBefore blankAfter absent),List.map_cons,trimmed.trim_pad blankBefore blankAfter,
      ih some_' fun token member => each token (List.mem_cons_of_mem _ member)]

private theorem Slots.each (filled : Slots pairs slots) : ∀ token ∈ slots, Trimmed token ∧ ',' ∉ token := by
  induction filled with
  | nil => simp
  | vacant _ ih => simpa only [List.forall_mem_cons] using ⟨⟨⟨rfl, rfl⟩, by simp⟩, ih⟩
  | taken specifies _ ih => simpa only [List.forall_mem_cons] using ⟨⟨specifies.trimmed, specifies.undivided⟩, ih⟩

private theorem Slots.read (filled : Slots pairs slots) (what : String) :
    specifiersOf what (slots.filter (· ≠ [])) = .ok pairs := by
  induction filled with
  | nil => rfl
  | vacant _ ih => simpa using ih
  | taken specifies _ ih =>
    rw [List.filter_cons_of_pos (by simp [specifies.nonempty]),specifiersOf,specifies.read,ih]
    rfl

private theorem ListsPairs.read (lists : ListsPairs pairs text) (some_ : pairs ≠ []) (what : String) :
    parseSpecifiers what text = .ok pairs := by
  obtain ⟨slots, filled, listing⟩ := lists
  have slots_ : slots ≠ [] := by
    rintro rfl
    cases filled
    exact some_ rfl
  have given : pairs.isEmpty = false := by simpa using some_
  rw [parseSpecifiers,splitOn_listing listing slots_ filled.each,filled.read what]
  simp only [bind,Except.bind,given,Bool.false_eq_true,if_false]
  rfl

private theorem ListsPairs.nonempty (lists : ListsPairs pairs text) (some_ : pairs ≠ []) : text ≠ [] := by
  rintro rfl
  have read := lists.read some_ ""
  cases read

end Specifiers

section Imports

variable {pairs : List (String × String)} {dependency : String} {text inner tail : Chars}

private theorem quotedName?_quoted {quote : Char} (quotes : quote = '\'' ∨ quote = '"') (nonempty : inner ≠ []) :
    quotedName? (quote :: (inner ++ [quote])) = some inner := by
  simp [quotedName?,quotes,nonempty]

private theorem memberList?_open (absent : '}' ∉ text) : memberList? text = none := by
  induction text with
  | nil => rfl
  | cons c rest ih =>
    have later : '}' ∉ rest := fun member => absent (List.mem_cons_of_mem _ member)
    have other : c ≠ '}' := by
      rintro rfl
      exact absent List.mem_cons_self
    rw [memberList?,ih later]
    exact if_neg other

private theorem memberList?_closed {found : Chars} (source : source? tail = some found) (last : '}' ∉ tail) :
    memberList? (inner ++ '}' :: tail) = some (inner, found) := by
  induction inner with
  | nil =>
    rw [List.nil_append,memberList?,memberList?_open last,source]
    rfl
  | cons c rest ih => rw [List.cons_append,memberList?,ih]

private theorem source?_quoted {gap gap' : Chars} {quote : Char} (blank : gap.all isBlank = true)
    (blank' : gap'.all isBlank = true)
    (quotes : quote = '\'' ∨ quote = '"') (nonempty : inner ≠ []) :
    source? (gap ++ ("from".toList ++ (gap' ++ quote :: (inner ++ [quote])))) = some inner := by
  have start : trimStart (gap ++ ("from".toList ++ (gap' ++ quote :: (inner ++ [quote])))) =
      "from".toList ++ (gap' ++ quote :: (inner ++ [quote])) := by
    rw [trimStart_blanks blank]
    exact trimStart_of_first rfl
  have solid : isBlank quote = false := by rcases quotes with rfl | rfl <;> decide
  have later : trimStart (gap' ++ quote :: (inner ++ [quote])) = quote :: (inner ++ [quote]) := by
    rw [trimStart_blanks blank']
    exact trimStart_of_first solid
  simp only [source?,start,dropLead?_append,later,bind,Option.bind]
  exact quotedName?_quoted quotes nonempty

/-- An import of members is its list and its dependency, since the dependency has no brace of its own. -/
private theorem ImportsPairs.parts (imports : ImportsPairs pairs dependency text) (some_ : pairs ≠ [])
    (named : dependency.toList ≠ []) (closed : '}' ∉ dependency.toList) :
    ∃ inner, ListsPairs pairs inner ∧ memberImport? text = some (inner, dependency.toList) := by
  obtain ⟨blank, lists, blank', blank'', quotes⟩ := imports
  rename_i gap inner gap' gap'' quote
  have unclosed : '}' ∉ gap' ++ ("from".toList ++ (gap'' ++ quote :: (dependency.toList ++ [quote]))) := by
    have other : '}' ≠ quote := by rcases quotes with rfl | rfl <;> decide
    simp only [List.mem_append,List.mem_cons,List.not_mem_nil,or_false,not_or]
    exact ⟨not_mem_blanks blank' (by decide), by decide, not_mem_blanks blank'' (by decide), other, closed, other⟩
  have source := source?_quoted blank' blank'' quotes named
  have start (rest : Chars) : trimStart (gap ++ '{' :: rest) = '{' :: rest := by
    rw [trimStart_blanks blank]
    exact trimStart_of_first rfl
  refine ⟨inner, lists, ?_⟩
  simp only [memberImport?,dropLead?_append,start,memberList?_closed source unclosed,bind,Option.bind]
  simp [lists.nonempty some_]

private theorem ImportsPairs.ends (imports : ImportsPairs pairs dependency text) :
    Trimmed text ∧ text.getLast? ≠ some ';' := by
  obtain ⟨-, -, -, -, quotes⟩ := imports
  rename_i gap inner gap' gap'' quote
  have last : ("import".toList ++ (gap ++ '{' :: (inner ++ '}' :: (gap' ++ ("from".toList ++ (gap'' ++ quote ::
      (dependency.toList ++ [quote]))))))).getLast? = some quote := by
    simp only [← List.append_assoc,← List.cons_append,List.getLast?_concat]
  refine ⟨⟨rfl, ?_⟩, ?_⟩
  · rw [last]
    rcases quotes with rfl | rfl <;> decide
  · rw [last]
    rcases quotes with rfl | rfl <;> decide

end Imports

section Exports

variable {pairs : List (String × String)} {text : Chars}

private theorem ExportsPairs.ends (exports : ExportsPairs pairs text) : Trimmed text ∧ text.getLast? ≠ some ';' := by
  obtain ⟨-, -⟩ := exports
  rename_i gap inner
  have last : ("export".toList ++ (gap ++ '{' :: (inner ++ ['}']))).getLast? = some '}' := by
    simp only [← List.append_assoc,← List.cons_append,List.getLast?_concat]
  refine ⟨⟨rfl, ?_⟩, ?_⟩
  · rw [last]
    decide
  · rw [last]
    decide

private theorem last_braces (inner : Chars) : ('{' :: (inner ++ ['}'])).getLast? = some '}' := by
  rw [← List.cons_append,List.getLast?_concat]

private theorem trimmed_braces (inner : Chars) : Trimmed ('{' :: (inner ++ ['}'])) :=
  ⟨rfl, by rw [last_braces]; decide⟩

private theorem parse?_braces (inner : Chars) :
    Declaration.parse? ('{' :: (inner ++ ['}'])) = none ∧ Assignment.parse? ('{' :: (inner ++ ['}'])) = none := by
  have bare : stripSemicolon (trim ('{' :: (inner ++ ['}']))) = '{' :: (inner ++ ['}']) := by
    rw [(trimmed_braces inner).trim_eq,stripSemicolon_eq (by rw [last_braces]; decide)]
  have nameless : leadingName? ('{' :: (inner ++ ['}'])) = none := leadingName?_none (by decide) _
  constructor
  · rw [Declaration.parse?,bare,nameless]
    rfl
  · rw [Assignment.parse?,bare,Assignment.ofText?,nameless]
    rfl

private theorem ExportsPairs.parse (exports : ExportsPairs pairs text) (some_ : pairs ≠ []) {line : Chars}
    (bare : stripSemicolon (trim line) = text) : Export.parse line = .ok (.names pairs) := by
  obtain ⟨blank, lists⟩ := exports
  rename_i gap inner
  have body : trim ((stripSemicolon (trim line)).drop "export".length) = '{' :: (inner ++ ['}']) := by
    have padded := (trimmed_braces inner).trim_pad blank (show ([] : Chars).all isBlank = true from rfl)
    rw [List.append_nil] at padded
    rw [bare]
    exact padded
  have long : 2 ≤ (inner ++ ['}']).length := by
    have inside := List.length_pos_iff.mpr (lists.nonempty some_)
    rw [List.length_append,List.length_singleton]
    omega
  rw [Export.parse,body]
  simp only [(parse?_braces inner).1,(parse?_braces inner).2,List.getLast?_concat,List.dropLast_concat,long,
    lists.read some_,decide_true,Bool.and_true,if_true,bind,Except.bind,pure,Except.pure]

end Exports

/-- Imports and exports of lists are read as they are written: an import as its dependency and the pairs of its list
in order, with no name for the whole; an export as the pairs, and as nothing else. -/
theorem exchange_lists_are_read_as_written {pairs : List (String × String)} (some_ : pairs ≠ []) :
    (∀ {dependency : String} {text line : Chars}, ImportsPairs pairs dependency text → dependency ≠ "" →
      '}' ∉ dependency.toList → Surrounds line text → Import.parse line = .ok (.members dependency pairs)) ∧
    ∀ {text line : Chars}, ExportsPairs pairs text → Surrounds line text → Export.parse line = .ok (.names pairs) := by
  constructor
  · intro dependency text line imports named closed surrounds
    have bare := surrounds.stripSemicolon_trim imports.ends.1 imports.ends.2
    obtain ⟨inner, lists, parts⟩ := imports.parts some_ (by simpa using named) closed
    rw [Import.parse,bare,parts]
    simp only [lists.read some_,String.ofList_toList]
    rfl
  · intro text line exports surrounds
    exact exports.parse some_ (surrounds.stripSemicolon_trim exports.ends.1 exports.ends.2)

/-- The names are words that lists are made of, two slots are empty, and the dependency has quotes of both kinds. -/
theorem exchange_lists_are_read_as_written_words :
    Import.parse " import\x7b ,as ,from  as let,\x7d from\"it's \"from'\" ; ".toList =
      .ok (.members "it's \"from'" [("as", "as"), ("from", "let")]) ∧
    Export.parse "export \x7b ,as ,from  as let,\x7d".toList = .ok (.names [("as", "as"), ("from", "let")]) := by
  have own : Specifies ("as", "as") "as".toList := .own (by decide)
  have renamed : Specifies ("from", "let") "from  as let".toList :=
    @Specifies.renamed "from" "let" "  ".toList [' '] (by decide) (by decide) (by decide) (by decide)
  have slots : Slots [("as", "as"), ("from", "let")] [[], "as".toList, "from  as let".toList, []] :=
    .vacant (.taken own (.taken renamed (.vacant .nil)))
  have listing : Listing [[], "as".toList, "from  as let".toList, []] " ,as ,from  as let,".toList :=
    @Listing.more [' '] _ [] _ _ rfl rfl (List.cons_ne_nil _ _)
      (@Listing.more [] _ [' '] _ _ rfl rfl (List.cons_ne_nil _ _)
        (@Listing.more [] _ [] _ _ rfl rfl (List.cons_ne_nil _ _) (@Listing.last [] _ [] rfl rfl)))
  have imports : ImportsPairs [("as", "as"), ("from", "let")] "it's \"from'"
      "import\x7b ,as ,from  as let,\x7d from\"it's \"from'\"".toList :=
    @ImportsPairs.intro _ "it's \"from'" [] _ [' '] [] '"' rfl ⟨_, slots, listing⟩ rfl rfl (.inr rfl)
  have exports : ExportsPairs [("as", "as"), ("from", "let")] "export \x7b ,as ,from  as let,\x7d".toList :=
    @ExportsPairs.intro _ [' '] _ rfl ⟨_, slots, listing⟩
  obtain ⟨reads, reads'⟩ := exchange_lists_are_read_as_written (List.cons_ne_nil ("as", "as") [("from", "let")])
  refine ⟨reads imports (by decide) (by decide) ?_, reads' exports ?_⟩
  · exact ⟨[' '], " ;".toList, [' '], rfl, rfl, .inr ⟨[' '], rfl, rfl⟩, rfl⟩
  · exact ⟨[], [], [], rfl, rfl, .inl rfl, rfl⟩

end Inyandiko
