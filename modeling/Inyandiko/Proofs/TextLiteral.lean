import Inyandiko.Proofs.Expression.Adequacy
import Inyandiko.Proofs.JsonText
import Inyandiko.Proofs.Program.Reading

/-! Texts in double quotes. The written form of a text is one closed literal for everything that looks at
quotes, and the text is read back from it, unless the text ends in a backslash. Its last escape is then two
backslashes, and the second of them stands right before the closing quote. -/
namespace Inyandiko

open Text Source

namespace Text

/-- Texts that close no double quotes around them: every double quote is escaped. -/
inductive Covered : Chars → Prop
  | nil : Covered []
  | plain {c : Char} {rest : Chars} (quote : c ≠ '"') (later : Covered rest) : Covered (c :: rest)
  | escape {c : Char} {rest : Chars} (later : Covered rest) : Covered ('\\' :: c :: rest)

namespace Covered

private theorem append {first second : Chars} (one : Covered first) (two : Covered second) :
    Covered (first ++ second) := by
  induction one with
  | nil => exact two
  | plain quote _ ih => exact .plain quote ih
  | escape _ ih => exact .escape ih

private theorem of_quoteless {text : Chars} (quoteless : ∀ c ∈ text, c ≠ '"') : Covered text := by
  induction text with
  | nil => exact .nil
  | cons c rest ih =>
    exact .plain (quoteless c List.mem_cons_self) (ih fun d member => quoteless d (List.mem_cons_of_mem _ member))

private theorem scan {text : Chars} (covered : Covered text) {scan : Scan} (inside : scan.span = .double) :
    scan.spots text = [] ∧ (scan.after text).span = .double := by
  have unseen {scan : Scan} (inside : scan.span = .double) (c : Char) (rest : Chars) :
      scan.spots (c :: rest) = (scan.next c).spots rest := by
    simp [Scan.spots,Scan.sees,inside]
  induction covered generalizing scan with
  | nil => exact ⟨rfl, inside⟩
  | @plain c rest quote _ ih =>
    have stays : (scan.next c).span = .double := by simp [Scan.next,inside,Span.toggle?,quote]
    rw [unseen inside]
    exact ih stays
  | @escape c rest _ ih =>
    have first : (scan.next '\\').span = .double := by simp [Scan.next,inside,Span.toggle?]
    have stays : ((scan.next '\\').next c).span = .double := by
      rw [Scan.next,first]
      simp [Scan.next,Span.toggle?]
    rw [unseen inside,unseen first]
    exact ih stays

private theorem quoteEnd? {text : Chars} (covered : Covered text) (previous : Char) (index : Nat) (rest : Chars) :
    quoteEnd? '"' previous index (text ++ rest) =
      Inyandiko.quoteEnd? '"' (text.getLast?.getD previous) (index + text.length) rest := by
  have step (c : Char) (text : Chars) (previous : Char) :
      (c :: text).getLast?.getD previous = text.getLast?.getD c := by
    cases text with
    | nil => rfl
    | cons d text => rw [List.getLast?_cons_cons,List.getLast?_cons]; rfl
  induction covered generalizing previous index with
  | nil => rfl
  | @plain c text quote _ ih =>
    rw [List.cons_append,Inyandiko.quoteEnd?,if_neg (by simp [quote]),ih,step,List.length_cons]
    congr 1
    omega
  | @escape c text _ ih =>
    rw [List.cons_append,List.cons_append,Inyandiko.quoteEnd?,if_neg (by simp),Inyandiko.quoteEnd?,
      if_neg (by simp),ih,step,step,List.length_cons,List.length_cons]
    congr 1
    omega

end Covered

end Text

namespace Json

section Characters

variable {c : Char} {text : Chars}

private theorem digitChar_facts {digit : Nat} (small : digit < 16) :
    (' ' ≤ digit.digitChar ∧ digit.digitChar ≤ '~') ∧ digit.digitChar ≠ '"' ∧ digit.digitChar ≠ '\\' := by
  have all : ∀ digit ∈ List.range 16,
      (' ' ≤ digit.digitChar ∧ digit.digitChar ≤ '~') ∧ digit.digitChar ≠ '"' ∧ digit.digitChar ≠ '\\' :=
    forall_of_all (by decide)
  exact all digit (List.mem_range.mpr small)

private theorem unitEscape_facts {unit : Nat} (small : unit < 0x10000) :
    Covered (unitEscape unit) ∧ (∀ d ∈ unitEscape unit, ' ' ≤ d ∧ d ≤ '~') ∧
      ∃ last, (unitEscape unit).getLast? = some last ∧ last ≠ '\\' := by
  have digits : ∀ d ∈ hex 4 unit, (' ' ≤ d ∧ d ≤ '~') ∧ d ≠ '"' ∧ d ≠ '\\' := by
    intro d member
    rw [hex_four small] at member
    simp only [List.mem_cons,List.not_mem_nil,or_false] at member
    rcases member with rfl | rfl | rfl | rfl <;> exact digitChar_facts (by omega)
  refine ⟨.escape (.of_quoteless fun d member => (digits d member).2.1), ?_, (unit % 16).digitChar, ?_, ?_⟩
  · intro d member
    simp only [unitEscape,List.mem_cons] at member
    rcases member with rfl | rfl | inside
    · decide
    · decide
    · exact (digits d inside).1
  · rw [unitEscape,hex_four small]
    rfl
  · exact (digitChar_facts (Nat.mod_lt _ (by decide))).2.2

private theorem escaped?_facts {letter : Char} (stands : escaped? letter = some c) :
    (' ' ≤ letter ∧ letter ≤ '~') ∧ (letter = '\\' ↔ c = '\\') := by
  unfold escaped? at stands
  split at stands <;> cases stands <;> decide

/-- What a written character is made of: printable characters that close no quotes. It ends in a backslash
only if it is one. -/
private theorem Written.facts (written : Written c text) :
    Covered text ∧ (∀ d ∈ text, ' ' ≤ d ∧ d ≤ '~') ∧
      ∃ last, text.getLast? = some last ∧ (last = '\\' ↔ c = '\\') := by
  have valid := toNat_whole c
  cases written with
  | @letter letter stands =>
    obtain ⟨printable, same⟩ := escaped?_facts stands
    refine ⟨.escape .nil, ?_, letter, rfl, same⟩
    simpa using printable
  | plain quote backslash low high =>
    refine ⟨.plain quote .nil, ?_, c, rfl, Iff.rfl⟩
    simpa using ⟨low, high⟩
  | unit backslash small =>
    obtain ⟨covered, printable, last, ends, other⟩ := unitEscape_facts small
    exact ⟨covered, printable, last, ends, iff_of_false other backslash⟩
  | @pair offset beyond =>
    obtain ⟨covered, printable, _⟩ := unitEscape_facts (by omega : 0xd800 + offset / 0x400 < 0x10000)
    obtain ⟨covered', printable', last, ends, other⟩ :=
      unitEscape_facts (by omega : 0xdc00 + offset % 0x400 < 0x10000)
    refine ⟨covered.append covered', ?_, last, ?_, iff_of_false other ?_⟩
    · intro d member
      exact (List.mem_append.mp member).elim (printable d) (printable' d)
    · rw [List.getLast?_append,ends]
      rfl
    · rintro rfl
      simp at beyond
      omega

end Characters

section Texts

variable (text : Chars)

private theorem covered_escapes : Covered (text.flatMap escapeChar) := by
  induction text with
  | nil => exact .nil
  | cons c text ih =>
    rw [List.flatMap_cons]
    exact (written_escapeChar c).facts.1.append ih

private theorem printable_writeText : ∀ d ∈ writeText text, ' ' ≤ d ∧ d ≤ '~' := by
  intro d member
  simp only [writeText,List.cons_append,List.mem_cons,List.mem_append,List.mem_flatMap,List.not_mem_nil,
    or_false] at member
  rcases member with rfl | ⟨c, _, inside⟩ | rfl
  · decide
  · exact (written_escapeChar c).facts.2.1 d inside
  · decide

private theorem escapes_end : (text.flatMap escapeChar).getLast? = some '\\' ↔ text.getLast? = some '\\' := by
  rcases List.eq_nil_or_concat text with rfl | ⟨start, c, rfl⟩
  · rfl
  · obtain ⟨last, ends, same⟩ := (written_escapeChar c).facts.2.2
    rw [List.concat_eq_append,List.flatMap_append,List.flatMap_singleton,List.getLast?_append,ends,
      List.getLast?_concat]
    simpa using same

private theorem writeText_ends : (writeText text).getLast? = some '"' := List.getLast?_concat

private theorem trimmed_writeText : Trimmed (writeText text) :=
  ⟨(by decide : isBlank '"' = false), by rw [writeText_ends]; decide⟩

private theorem unended_writeText : (writeText text).getLast? ≠ some ';' := by
  rw [writeText_ends]
  decide

private theorem spots_writeText {scan : Scan} (inCode : scan.span = .code) (fresh : scan.escaped = false) :
    scan.spots (writeText text) = [] := by
  have opened : (scan.next '"').span = .double := by simp [Scan.next,inCode,fresh,Span.toggle?]
  obtain ⟨none, inside⟩ := (covered_escapes text).scan opened
  have quote : scan.sees '"' = false := by simp [Scan.sees,inCode,fresh,Span.toggle?]
  rw [writeText,List.cons_append,Scan.spots,if_neg (by simp [quote]),Scan.spots_append,none]
  simp [Scan.spots,Scan.sees,inside]

private theorem quoteEnd?_writeText :
    quoteEnd? '"' '"' 1 (text.flatMap escapeChar ++ ['"']) =
      if text.getLast? = some '\\' then none else some (text.flatMap escapeChar ++ ['"']).length := by
  have last := escapes_end text
  rw [(covered_escapes text).quoteEnd?,quoteEnd?]
  by_cases ends : text.getLast? = some '\\'
  · simp [ends,last.mpr ends,quoteEnd?]
  · have other : (text.flatMap escapeChar).getLast?.getD '"' ≠ '\\' := by
      cases found : (text.flatMap escapeChar).getLast? with
      | none => decide
      | some c =>
        rw [found] at last
        exact fun same => ends (last.mp (congrArg some same))
    simp [ends,other,Nat.add_comm]

/-- A written text is a literal that is read as the text, unless the text ends in a backslash. -/
private theorem textLiteral?_writeText :
    textLiteral? (writeText text) =
      .ok (if text.getLast? = some '\\' then none else some (.text (String.ofList text))) := by
  have found := quoteEnd?_writeText text
  have read := read_writeText 0 text
  rw [writeText,List.cons_append] at read ⊢
  by_cases ends : text.getLast? = some '\\'
  · simp [textLiteral?,found,ends]
  · simp [textLiteral?,found,ends,read]

private theorem compound_writeText (ends : text.getLast? = some '\\') : Compound (writeText text) := by
  have unquoted := textLiteral?_writeText text
  rw [if_pos ends] at unquoted
  exact ⟨unquoted, rfl, wordLiteral?_eq_none rfl, rfl, rfl⟩

end Texts

end Json

open Json

private theorem Operator.split?_of_quoted {text : Chars} (none : spots text = []) (tiers : List (List Operator)) :
    split? text tiers = .none := by
  induction tiers with
  | nil => rfl
  | cons tier tiers ih =>
    have absent : find? spelling tier text = .none := by rw [find?,none]; rfl
    rw [split?,absent]
    exact ih

section Evaluation

variable (lookup : String → Option Value) (heap : Heap) {text : Chars}

private theorem evaluate_closed (ends : text.getLast? ≠ some '\\') :
    evaluate lookup (writeText text) heap = .ok (.text (String.ofList text), heap) := by
  have read := textLiteral?_writeText text
  rw [if_neg ends] at read
  have simple : simpleValue? lookup (writeText text) heap =
      .ok (some (.text (String.ofList text)), heap) := by
    simp only [simpleValue?,read]
    rfl
  exact evaluateWithin_run (trimmed_writeText text).trim_eq (List.cons_ne_nil _ _) simple

/-- The written form of a text that ends in a backslash is no literal, and nothing else either. -/
private theorem evaluate_unclosed (ends : text.getLast? = some '\\')
    (unbound : lookup (String.ofList (writeText text)) = none) :
    evaluate lookup (writeText text) heap =
      .error (.ofCause (.unknownValue (String.ofList (writeText text)))) := by
  have simple := (compound_writeText text ends).simpleValue?_unbound lookup heap
    (isNumeral_first (by decide) (by decide) _) unbound
  have unsplit := Operator.split?_of_quoted (spots_writeText text rfl rfl) Operator.tiers
  exact evaluateWithin_unknown (trimmed_writeText text).trim_eq (List.cons_ne_nil _ _) simple unsplit
    (by simp [writeText,marks])

end Evaluation

section Declarations

variable {setup : Setup} {depth : Nat} {isConst : Bool} {name : Identifier} {expression : Chars}
variable {frame : FrameId} {context : ContextId} {world : World}

/-- An expression that is no call, as a declaration may have it. -/
structure Plain (expression : Chars) : Prop where
  nonempty : expression ≠ []
  trimmed : Trimmed expression
  unended : expression.getLast? ≠ some ';'
  uncalled : Call.parse? expression = none

/-- What begins with a quote is no call. -/
theorem Plain.of_quote {quote : Char} {rest : Chars} (trimmed : Trimmed (quote :: rest))
    (unended : (quote :: rest).getLast? ≠ some ';') (other : isNameStart quote = false) : Plain (quote :: rest) where
  nonempty := List.cons_ne_nil _ _
  trimmed := trimmed
  unended := unended
  uncalled := by
    rw [Call.parse?,trimmed.trim_eq,stripSemicolon_eq unended,leadingName?_none other]
    rfl

private theorem items_declareText (plain : Plain expression) :
    Statement.items [declareText isConst name expression] =
      [⟨declareText isConst name expression, .ok (.declare ⟨isConst, name.string, expression⟩)⟩] := by
  have read := read_declareText isConst name plain.nonempty plain.trimmed plain.unended []
  have filler := (leads_declareText isConst name expression).1
  simp [Statement.items,Statement.itemsUpTo,filler,read]

theorem token_plain (plain : Plain expression) (setup : Setup) (depth : Nat) :
    (Machine.level setup (depth + 1)).token expression frame context = Exec.evaluateIn frame expression := by
  have run : (Machine.level setup (depth + 1)).token expression frame context =
      (Machine.level setup depth).evaluateToken setup expression frame context := rfl
  rw [run,Machine.evaluateToken,plain.trimmed.trim_eq]
  simp only [plain.nonempty,if_false,plain.uncalled]

private theorem block_level (setup : Setup) (depth : Nat) (lines : List Line) (frame : FrameId) (context : ContextId) :
    (Machine.level setup (depth + 1)).block lines frame context =
      Machine.linesBlock setup (Machine.level setup depth) lines frame context := rfl

private theorem block_declared (plain : Plain expression) {value : Value} {scopes : Scopes}
    (evaluated : evaluate (world.scopes.resolve? frame) expression world.heap = .ok (value, world.heap))
    (declared : world.scopes.declare frame name.string value isConst = .ok scopes) :
    (Machine.level setup (depth + 2)).block [declareText isConst name expression] frame context world =
      (.ok none, { world with scopes }) := by
  have token : (Machine.level setup (depth + 1)).token expression frame context world = (.ok value, world) := by
    rw [token_plain plain]
    simp only [Exec.evaluateIn,Exec.bind_run,Exec.scopes_run,Exec.onHeap_run,evaluated]
  rw [block_level,Machine.linesBlock,items_declareText plain]
  simp only [Machine.items,Exec.bind_run,Machine.located_run,Machine.statement,Machine.declare,token,
    Exec.onScopes_run,declared]
  rfl

private theorem block_undeclared (plain : Plain expression) {cause : Cause}
    (refused : evaluate (world.scopes.resolve? frame) expression world.heap = .error (.ofCause cause)) :
    (Machine.level setup (depth + 2)).block [declareText isConst name expression] frame context world =
      (.error (.fault ⟨cause, some (String.ofList (declareText isConst name expression))⟩), world) := by
  have token : (Machine.level setup (depth + 1)).token expression frame context world =
      (.error (.ofCause cause), world) := by
    rw [token_plain plain]
    simp only [Exec.evaluateIn,Exec.bind_run,Exec.scopes_run,Exec.onHeap_run,refused]
  rw [block_level,Machine.linesBlock,items_declareText plain]
  simp only [Machine.items,Exec.bind_run,Machine.located_run,Machine.statement,Machine.declare,token]
  rfl

end Declarations

/-- An expression on one line that is in quotes from its beginning to its end. -/
structure Hidden (expression : Chars) : Prop where
  nonempty : expression ≠ []
  trimmed : Trimmed expression
  oneLine : ∀ c ∈ expression, c ≠ '\n' ∧ c ≠ '\r'
  unseen : ∀ scan : Scan, scan.span = .code → scan.escaped = false → scan.spots expression = []

/-- An expression in quotes behind words is one line without a comment, whatever is in the quotes. -/
private theorem Hidden.settled {expression words : Chars} (hidden : Hidden expression) (safe : words.all isSafe = true)
    (some_ : words ≠ []) (solid : words.head?.any isBlank = false) : Settled (words ++ expression) where
  nonempty := List.append_ne_nil_of_left_ne_nil some_ _
  trimmed := ⟨first_append some_ solid _, last_append hidden.nonempty hidden.trimmed.last _⟩
  oneLine c member := by
    rcases List.mem_append.mp member with left | right
    · exact (Sound.of_safe safe).oneLine c left
    · exact hidden.oneLine c right
  uncommented spot member slash := by
    -- the expression has no spots, and the words have no slash
    rw [spots,Scan.spots_append,hidden.unseen _ (Scan.span_after_unquote rfl (isUnquote_of_safe safe))
      (escaped_of_safe safe rfl),List.append_nil] at member
    obtain ⟨inner, listed, rfl⟩ := List.mem_map.mp member
    obtain ⟨before, eq⟩ := mem_spots listed
    have inside : '/' ∈ words := by
      rw [eq,show inner.char = '/' from slash]
      simp
    exact absurd (List.all_eq_true.mp safe '/' inside) (by decide)

theorem Hidden.settled_declareText {expression : Chars} (hidden : Hidden expression) (isConst : Bool)
    (name : Identifier) : Settled (declareText isConst name expression) := by
  have wording := wording_append
    (wording_append (bindingKeyword isConst).wording (by decide : isWording [' '] = true))
    (wording_append name.wording (by decide : isWording [' ', '=', ' '] = true))
  have word := (bindingKeyword isConst).words.1
  rw [declareText,assignText,← List.append_assoc]
  refine hidden.settled (safe_of_wording wording) ?_ ?_
  · exact List.append_ne_nil_of_left_ne_nil (List.append_ne_nil_of_left_ne_nil word _) _
  · exact first_append (List.append_ne_nil_of_left_ne_nil word _)
      (first_append word (bindingKeyword isConst).solid _) _

section Sources

variable (text : Chars)

private theorem plain_writeText : Plain (writeText text) :=
  .of_quote (trimmed_writeText text) (unended_writeText text) (by decide)

private theorem hidden_writeText : Hidden (writeText text) where
  nonempty := List.cons_ne_nil _ _
  trimmed := trimmed_writeText text
  oneLine c member := by
    have low := (printable_writeText text c member).1
    exact ⟨by rintro rfl; exact absurd low (by decide), by rintro rfl; exact absurd low (by decide)⟩
  unseen _ inCode fresh := spots_writeText text inCode fresh

end Sources

section Runs

variable {options : RunOptions} {world : World}

private theorem frame_opened (options : RunOptions) (world : World) :
    (world.opened options).scopes.frame world.scopes.frames.size =
      { bindings := Machine.initialVariables options } := by
  simp [World.opened,Scopes.push,Scopes.frame]

private theorem resolve?_opened (options : RunOptions) (world : World) :
    (world.opened options).scopes.resolve? world.scopes.frames.size =
      (Machine.initialVariables options).get? := by
  funext name
  rw [Scopes.resolve?,Scopes.owner?,Scopes.chain,frame_opened]
  cases bound : (Machine.initialVariables options).contains name with
  | true => simp [frame_opened,bound]
  | false =>
    have unbound : (Machine.initialVariables options).get? name = none := by
      simpa [Table.contains] using bound
    simp [frame_opened,bound,unbound]

private theorem declare_opened {options : RunOptions} {name : String}
    (fresh : (Machine.initialVariables options).contains name = false) (world : World) (value : Value)
    (isConst : Bool) :
    ∃ scopes, (world.opened options).scopes.declare world.scopes.frames.size name value isConst = .ok scopes ∧
      (scopes.frame world.scopes.frames.size).bindings = (Machine.initialVariables options).insert name value := by
  have inside : world.scopes.frames.size < (world.opened options).scopes.frames.size := by
    rw [World.size_opened]
    exact Nat.lt_succ_self _
  have free : ¬((world.opened options).scopes.frame world.scopes.frames.size).bindings.contains name = true := by
    rw [frame_opened]
    simp [fresh]
  refine ⟨_, if_neg free, ?_⟩
  rw [Scopes.frame_modify_self _ _ inside,frame_opened]

private theorem execute_line {line : Line} (settled : Settled line) (setup : Setup) (options : RunOptions)
    (world : World) :
    execute setup (String.ofList line) options world =
      Machine.session options ((Machine.level setup Machine.outermost).block [line])
        (world.logged s!"run started: {1} logical lines") := by
  have read : Source.lines (String.ofList line).toList = [line] := by
    rw [String.toList_ofList]
    exact @lines_joinSettled [line] fun other member => List.mem_singleton.mp member ▸ settled
  rw [execute_run,read]
  rfl

variable {setup : Setup} {isConst : Bool} {name : Identifier} {expression : Chars}

/-- A script that declares the value of an expression. -/
theorem execute_declared (settled : Settled (declareText isConst name expression)) (plain : Plain expression)
    {value : Value}
    (evaluated : ∀ heap, evaluate (Machine.initialVariables options).get? expression heap = .ok (value, heap))
    (fresh : (Machine.initialVariables options).contains name.string = false) :
    (execute setup (String.ofList (declareText isConst name expression)) options world).1 =
      .ok ⟨none, (Machine.initialVariables options).insert name.string value, .empty, []⟩ := by
  have levels : Machine.outermost = 997 + 2 := rfl
  rw [execute_line settled,Machine.session_run,levels]
  generalize world.logged s!"run started: {1} logical lines" = start
  obtain ⟨scopes, declared, bound⟩ := declare_opened fresh start value isConst
  dsimp only
  rw [block_declared plain (by rw [resolve?_opened]; exact evaluated _) declared,Machine.conclude_ok_run]
  have context : World.contextAt { start.opened options with scopes } start.contexts.size =
      Machine.startContext options := (World.contextAt_opened start options _).trans (if_pos rfl)
  simp only [World.record,bound,context]
  rfl

private theorem execute_undeclared (settled : Settled (declareText isConst name expression)) (plain : Plain expression)
    {cause : Cause}
    (refused : ∀ heap, evaluate (Machine.initialVariables options).get? expression heap = .error (.ofCause cause))
    (calm : options.hooks.error = none) :
    (execute setup (String.ofList (declareText isConst name expression)) options world).1 =
      .error (.fault ⟨cause, some (String.ofList (declareText isConst name expression))⟩) := by
  have levels : Machine.outermost = 997 + 2 := rfl
  rw [execute_line settled,Machine.session_run,levels]
  generalize world.logged s!"run started: {1} logical lines" = start
  dsimp only
  rw [block_undeclared plain (by rw [resolve?_opened]; exact refused _)]
  simp only [Machine.conclude,Machine.abort,calm]
  rfl

end Runs

section Literals

variable (setup : Setup) {options : RunOptions} (world : World) (isConst : Bool) (name : Identifier) {text : Chars}

private theorem execute_closed (fresh : (Machine.initialVariables options).contains name.string = false)
    (ends : text.getLast? ≠ some '\\') :
    (execute setup (String.ofList (declareText isConst name (writeText text))) options world).1 =
      .ok ⟨none, (Machine.initialVariables options).insert name.string (.text (String.ofList text)), .empty, []⟩ :=
  execute_declared ((hidden_writeText text).settled_declareText isConst name) (plain_writeText text)
    (fun heap => evaluate_closed _ heap ends) fresh

private theorem execute_unclosed
    (unnamed : (Machine.initialVariables options).contains (String.ofList (writeText text)) = false)
    (ends : text.getLast? = some '\\') (calm : options.hooks.error = none) :
    (execute setup (String.ofList (declareText isConst name (writeText text))) options world).1 =
      .error (.fault ⟨.unknownValue (String.ofList (writeText text)),
        some (String.ofList (declareText isConst name (writeText text)))⟩) := by
  have unbound : (Machine.initialVariables options).get? (String.ofList (writeText text)) = none := by
    simpa [Table.contains] using unnamed
  exact execute_undeclared ((hidden_writeText text).settled_declareText isConst name) (plain_writeText text)
    (fun heap => evaluate_unclosed _ heap ends unbound) calm

end Literals

/-- The line that declares an expression as `x`. -/
theorem declareText_x (expression : Chars) :
    String.ofList (declareText false { text := ['x'] } expression) = "let x = " ++ String.ofList expression := by
  rw [declareText,assignText,← List.append_assoc,String.ofList_append]
  rfl

/-- A text is carried by the literal that is its written form, whatever its characters are, unless it ends in
a backslash. The literal of a text that does is not taken to be closed, and the script fails at it. -/
theorem literals_carry_texts (setup : Setup) (options : RunOptions) (world : World) (text : String)
    (fresh : (Machine.initialVariables options).contains "x" = false) :
    let literal := String.ofList (writeText text.toList)
    let source := "let x = " ++ literal
    (text.toList.getLast? ≠ some '\\' →
      (execute setup source options world).1 =
        .ok ⟨none, (Machine.initialVariables options).insert "x" (.text text), .empty, []⟩) ∧
    (text.toList.getLast? = some '\\' → (Machine.initialVariables options).contains literal = false →
      options.hooks.error = none →
      (execute setup source options world).1 = .error (.fault ⟨.unknownValue literal, some source⟩)) := by
  intro literal source
  have spelled : source = String.ofList (declareText false { text := ['x'] } (writeText text.toList)) :=
    (declareText_x _).symm
  rw [spelled]
  refine ⟨fun ends => ?_, fun ends unnamed calm => execute_unclosed setup world false _ unnamed ends calm⟩
  have run := execute_closed setup world false { text := ['x'] } fresh ends
  rwa [String.ofList_toList] at run

/-- Quotes, a comment, a brace, control characters and a character of two units in one text. -/
theorem literals_carry_texts_mixed :
    let text := "'\"//\\\" \x7d;\n\x7f\u00e9😀"
    String.ofList (writeText text.toList) = "\"'\\\"//\\\\\\\" \x7d;\\n\\u007f\\u00e9\\ud83d\\ude00\"" ∧
      (Machine.initialVariables {}).contains "x" = false ∧ text.toList.getLast? ≠ some '\\' ∧
      (execute {} ("let x = " ++ String.ofList (writeText text.toList)) {} {}).1 =
        .ok ⟨none, Table.empty.insert "x" (.text text), .empty, []⟩ := by
  intro text
  have ends : text.toList.getLast? ≠ some '\\' := by decide
  exact ⟨by decide +kernel, rfl, ends, (literals_carry_texts {} {} {} text rfl).1 ends⟩

/-- The literal of a single backslash is not read. -/
theorem backslash_is_not_carried :
    String.ofList (writeText ['\\']) = "\"\\\\\"" ∧
      (execute {} "let x = \"\\\\\"" {} {}).1 =
        .error (.fault ⟨.unknownValue "\"\\\\\"", some "let x = \"\\\\\""⟩) := by
  refine ⟨rfl, ?_⟩
  have run : (execute {} (String.ofList (declareText false { text := ['x'] } (writeText ['\\']))) {} {}).1 = _ :=
    execute_unclosed {} {} false _ rfl rfl rfl
  rwa [declareText_x] at run

end Inyandiko
