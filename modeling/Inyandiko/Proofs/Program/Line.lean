import Inyandiko.Proofs.Expression.Scan
import Inyandiko.Proofs.Program

/-! The lines of programs as texts. Every line is one logical line of a source: its quotes are closed,
it has no comment and no blanks at its ends. What it does to the number of open braces is what its
statement says. -/
namespace Inyandiko

open Text Source

/-- Characters that mean nothing to quotes, comments and line breaks. -/
def isSafe (c : Char) : Bool := isUnquote c && (c ≠ '\\' && c ≠ '/' && c ≠ '\n' && c ≠ '\r')

/-- A piece of a line with its quotes closed and without comments. -/
structure Sound (text : Chars) : Prop where
  closed : (({} : Scan).after text).span = .code
  oneLine : ∀ c ∈ text, c ≠ '\n' ∧ c ≠ '\r'
  uncommented : ∀ spot ∈ spots text, spot.char = '/' → spot.rest.head? ≠ some '/'

theorem mem_spots {scan : Scan} {text : Chars} {spot : Spot} (member : spot ∈ scan.spots text) :
    ∃ before, text = before ++ spot.char :: spot.rest := by
  obtain ⟨before, eq, _⟩ := Scan.split_of_mem member
  exact ⟨before, eq⟩

namespace Sound

private theorem append {first second : Chars} (one : Sound first) (two : Sound second)
    (enters : (({} : Scan).after first).Enters second)
    (apart : first.getLast? = some '/' → second.head? ≠ some '/') : Sound (first ++ second) where
  closed := by rw [Scan.after_append,enters.span_after,two.closed]
  oneLine c member := by
    rcases List.mem_append.mp member with left | right
    · exact one.oneLine c left
    · exact two.oneLine c right
  uncommented spot member slash := by
    rw [spots,Scan.spots_append,List.mem_append,List.mem_map] at member
    rcases member with ⟨inner, listed, rfl⟩ | later
    · cases rest : inner.rest with
      | nil =>
        obtain ⟨before, eq⟩ := mem_spots listed
        have ends : first.getLast? = some '/' := by
          rw [eq,rest,List.getLast?_concat]
          exact congrArg some slash
        simpa only [Spot.extend,rest,List.nil_append] using apart ends
      | cons c more =>
        have unspoiled := one.uncommented inner listed slash
        rw [rest] at unspoiled
        simpa only [Spot.extend,rest,List.cons_append,List.head?_cons] using unspoiled
    · have seen := List.mem_map_of_mem (f := Spot.view) later
      rw [enters.views] at seen
      obtain ⟨other, listed, same⟩ := List.mem_map.mp seen
      have char : other.char = spot.char := congrArg Prod.fst same
      have rest : other.rest = spot.rest := congrArg Prod.snd same
      rw [← rest]
      exact two.uncommented other listed (char.trans slash)

theorem of_safe {text : Chars} (safe : text.all isSafe = true) : Sound text := by
  have each : ∀ c ∈ text, isUnquote c = true ∧ c ≠ '\\' ∧ c ≠ '/' ∧ c ≠ '\n' ∧ c ≠ '\r' := by
    intro c member
    have whole := List.all_eq_true.mp safe c member
    simpa [isSafe,and_assoc] using whole
  refine ⟨Scan.span_after_unquote rfl (List.all_eq_true.mpr fun c member => (each c member).1), ?_, ?_⟩
  · exact fun c member => (each c member).2.2.2
  · intro spot member slash
    obtain ⟨before, eq⟩ := mem_spots member
    have inside : spot.char ∈ text := by
      rw [eq]
      simp
    exact absurd slash (each _ inside).2.2.1

end Sound

section Safe

variable {text other : Chars}

theorem isUnquote_of_safe (safe : text.all isSafe = true) : text.all isUnquote = true := by
  rw [List.all_eq_true] at safe ⊢
  intro c member
  have whole := safe c member
  simp only [isSafe,Bool.and_eq_true] at whole
  exact whole.1

theorem escaped_of_safe (safe : text.all isSafe = true) {scan : Scan} (fresh : scan.escaped = false) :
    (scan.after text).escaped = false := by
  induction text generalizing scan with
  | nil => exact fresh
  | cons c rest ih =>
    simp only [List.all_cons,Bool.and_eq_true] at safe
    refine ih safe.2 ?_
    have whole := safe.1
    simp only [isSafe,Bool.and_eq_true,decide_eq_true_eq] at whole
    exact decide_eq_false whole.2.1.1.1

private theorem getLast?_of_safe (safe : text.all isSafe = true) : text.getLast? ≠ some '/' := by
  intro ends
  have whole := List.all_eq_true.mp safe '/' (List.mem_of_getLast? ends)
  exact absurd whole (by decide)

private theorem head?_of_safe (safe : text.all isSafe = true) : text.head? ≠ some '/' := by
  intro begins
  have whole := List.all_eq_true.mp safe '/' (List.mem_of_mem_head? begins)
  exact absurd whole (by decide)

private theorem enters_after_safe (safe : text.all isSafe = true) (other : Chars) :
    (({} : Scan).after text).Enters other :=
  .of_fresh (Scan.span_after_unquote rfl (isUnquote_of_safe safe)) (escaped_of_safe safe rfl) other

private theorem Sound.enters_safe (sound : Sound text) (safe : other.all isSafe = true) :
    (({} : Scan).after text).Enters other := by
  refine ⟨sound.closed, fun _ => ?_⟩
  cases other with
  | nil => rfl
  | cons c rest =>
    have unquote := isUnquote_of_safe safe
    simp only [List.all_cons,Bool.and_eq_true] at unquote
    exact unquote.1

private theorem Sound.after_safe (safe : text.all isSafe = true) (sound : Sound other) : Sound (text ++ other) :=
  (Sound.of_safe safe).append sound (enters_after_safe safe other) fun ends =>
    absurd ends (getLast?_of_safe safe)

theorem Sound.before_safe (sound : Sound text) (safe : other.all isSafe = true) : Sound (text ++ other) :=
  sound.append (.of_safe safe) (sound.enters_safe safe) fun _ => head?_of_safe safe

end Safe

/-- The number of open braces after a text; `none` when one closes what is not open. -/
def braces (depth : Nat) (text : Chars) : Option Nat := depthAfter (· = '}') depth (code text)

section Braces

variable {text other : Chars}

private theorem braces_append (enters : (({} : Scan).after text).Enters other) (depth : Nat) :
    braces depth (text ++ other) = (braces depth text).bind fun left => braces left other := by
  rw [braces,code_append enters,depthAfter_append]
  rfl

theorem braces_steady (steady : Steady text) (depth : Nat) : braces depth text = some depth :=
  steady.depth _ depth

theorem braces_safe (safe : text.all isSafe = true) (depth : Nat) :
    braces depth text = depthAfter (· = '}') depth text := by
  rw [braces,code,spots,Scan.chars_unquote rfl (isUnquote_of_safe safe)]

theorem braces_before_safe (sound : Sound text) (safe : other.all isSafe = true) {depth left : Nat}
    (first : braces depth text = some left) :
    braces depth (text ++ other) = depthAfter (· = '}') left other := by
  rw [braces_append (sound.enters_safe safe),first,Option.bind_some,braces_safe safe]

end Braces

/-- Whether a text has only safe characters and no brackets. -/
def isWording (text : Chars) : Bool := text.all fun c => isSafe c && (!opens c && !closes c)

theorem safe_of_wording {text : Chars} (wording : isWording text = true) : text.all isSafe = true := by
  rw [isWording,List.all_eq_true] at wording
  rw [List.all_eq_true]
  intro c member
  have whole := wording c member
  rw [Bool.and_eq_true] at whole
  exact whole.1

theorem steady_of_wording {text : Chars} (wording : isWording text = true) : Steady text := by
  refine .of_unquote (isUnquote_of_safe (safe_of_wording wording)) (dueAfter_plain ?_ [])
  rw [isWording,List.all_eq_true] at wording
  rw [List.all_eq_true]
  intro c member
  have whole := wording c member
  rw [Bool.and_eq_true] at whole
  exact whole.2

theorem wording_of_words {text : Chars} (words : text.all isWordChar = true) : isWording text = true := by
  rw [isWording,List.all_eq_true]
  intro c member
  have word := List.all_eq_true.mp words c member
  have quiet := isWordChar_isQuiet word
  simp only [isQuiet,Bool.and_eq_true] at quiet
  have backslash : c ≠ '\\' := isWordChar_ne word (by decide)
  have slash : c ≠ '/' := isWordChar_ne word (by decide)
  have feed : c ≠ '\n' := isWordChar_ne word (by decide)
  have carriage : c ≠ '\r' := by
    intro same
    rw [same] at word
    exact absurd word (by decide)
  simp [isSafe,quiet,backslash,slash,feed,carriage]

theorem Identifier.words (name : Identifier) : name.text ≠ [] ∧ name.text.all isWordChar = true :=
  all_isWordChar_identifier name.identifier

theorem Identifier.wording (name : Identifier) : isWording name.text = true := wording_of_words name.words.2

theorem wording_append {first second : Chars} (one : isWording first = true) (two : isWording second = true) :
    isWording (first ++ second) = true := by
  rw [isWording,List.all_append]
  exact Bool.and_eq_true_iff.mpr ⟨one, two⟩

theorem trimmed_words {text : Chars} (words : text.all isWordChar = true) : Trimmed text := by
  have solid (c : Char) (member : c ∈ text) : isBlank c = false :=
    isBlank_of_isWordChar (List.all_eq_true.mp words c member)
  constructor
  · cases first : text.head? with
    | none => rfl
    | some c => exact solid c (List.mem_of_mem_head? first)
  · cases last : text.getLast? with
    | none => rfl
    | some c => exact solid c (List.mem_of_getLast? last)

/-- A text that can be an argument of a call. -/
structure Argument (text : Chars) : Prop where
  nonempty : text ≠ []
  trimmed : Trimmed text
  sound : Sound text
  steady : Steady text
  undivided : topLevelCommas 0 (spots text) = []

private theorem topLevelCommas_eq_nil {depth : Int} {found : List Spot} (absent : ∀ spot ∈ found, spot.char ≠ ',') :
    topLevelCommas depth found = [] := by
  induction found generalizing depth with
  | nil => rfl
  | cons spot rest ih =>
    have first := absent spot List.mem_cons_self
    have later (depth : Int) := @ih depth fun other member => absent other (List.mem_cons_of_mem _ member)
    simp [topLevelCommas,first,later]

theorem Fragment.argument (fragment : Fragment) : Argument fragment.text where
  nonempty := fragment.nonempty
  trimmed := fragment.trimmed
  sound := ⟨fragment.steady.closed, fragment.oneLine, fragment.uncommented⟩
  steady := fragment.steady
  undivided := fragment.undivided

theorem argument_of_identifier {name : Chars} (identifier : isIdentifier name = true) : Argument name := by
  obtain ⟨nonempty, words⟩ := all_isWordChar_identifier identifier
  have wording := wording_of_words words
  refine ⟨nonempty, trimmed_words words, .of_safe (safe_of_wording wording), steady_of_wording wording,
    topLevelCommas_eq_nil fun spot member => ?_⟩
  obtain ⟨before, eq⟩ := mem_spots member
  have inside : spot.char ∈ name := by
    rw [eq]
    simp
  exact isWordChar_ne (List.all_eq_true.mp words _ inside) (by decide)

theorem Identifier.argument (name : Identifier) : Argument name.text := argument_of_identifier name.identifier

theorem arguments_fragments (fragments : List Fragment) : ∀ arg ∈ fragments.map Fragment.text, Argument arg := by
  intro arg member
  obtain ⟨fragment, _, rfl⟩ := List.mem_map.mp member
  exact fragment.argument

theorem arguments_params (params : List Identifier) : ∀ param ∈ params.map Identifier.text, Argument param := by
  intro param member
  obtain ⟨name, _, rfl⟩ := List.mem_map.mp member
  exact name.argument

section Calls

variable {args : List Chars} {words : Chars}

private theorem Sound.enters_after {text more : Chars} (sound : Sound text) (safe : more.all isSafe = true)
    (some_ : more ≠ []) (other : Chars) : (({} : Scan).after (text ++ more)).Enters other := by
  have sound' := sound.before_safe safe
  refine .of_fresh sound'.closed ?_ other
  cases more with
  | nil => exact absurd rfl some_
  | cons c rest =>
    simp only [List.all_cons,Bool.and_eq_true] at safe
    rw [Scan.after_append,Scan.after_cons]
    refine escaped_of_safe safe.2 ?_
    have whole := safe.1
    simp only [isSafe,Bool.and_eq_true,decide_eq_true_eq] at whole
    exact decide_eq_false whole.2.1.1.1

theorem listed_cons {arg other : Chars} (args : List Chars) :
    listed (arg :: other :: args) = (arg ++ [',', ' ']) ++ listed (other :: args) := by
  simp [listed]

private theorem listed_sound (each : ∀ arg ∈ args, Argument arg) : Sound (listed args) ∧ Steady (listed args) := by
  induction args with
  | nil => exact ⟨.of_safe rfl, steady_of_wording rfl⟩
  | cons arg rest ih =>
    have first := each arg List.mem_cons_self
    cases rest with
    | nil => exact ⟨first.sound, first.steady⟩
    | cons other rest =>
      obtain ⟨sound, steady⟩ := ih fun arg member => each arg (List.mem_cons_of_mem _ member)
      have comma : [',', ' '].all isSafe = true := by decide
      have enters := first.sound.enters_after comma (List.cons_ne_nil _ _) (listed (other :: rest))
      rw [listed_cons]
      constructor
      · refine (first.sound.before_safe comma).append sound enters ?_
        intro ends
        rw [List.getLast?_append] at ends
        exact absurd (Option.some.inj ends) (by decide)
      · exact (first.steady.append (steady_of_wording (by decide)) (first.sound.enters_safe comma)).append
          steady enters

private theorem Steady.parens {text : Chars} (steady : Steady text) : Steady ('(' :: (text ++ [')'])) := by
  have opened : (({} : Scan).after ['(']).Enters (text ++ [')']) := enters_after_safe (by decide) _
  have inner : (({} : Scan).after text).Enters [')'] := ⟨steady.closed, fun _ => rfl⟩
  constructor
  · rw [← List.singleton_append,Scan.after_append,opened.span_after,Scan.after_append,inner.span_after]
    rfl
  · rw [← List.singleton_append,code_append opened,code_append inner]
    have nested : dueAfter [')'] (code text) = some [')'] := dueAfter_under [] [')'] steady.nested
    have shape : dueAfter [] (code ['('] ++ (code text ++ code [')'])) =
        dueAfter [')'] (code text ++ [')']) := rfl
    rw [shape,dueAfter_append,nested]
    rfl

private theorem callText_sound (wording : isWording words = true) (each : ∀ arg ∈ args, Argument arg) :
    Sound (callText words args) ∧ Steady (callText words args) := by
  obtain ⟨sound, steady⟩ := listed_sound each
  have safe := safe_of_wording wording
  have inner : Sound ('(' :: (listed args ++ [')'])) :=
    Sound.after_safe (show ['('].all isSafe = true by decide) (sound.before_safe (by decide))
  exact ⟨inner.after_safe safe,
    (steady_of_wording wording).append (Steady.parens steady) (enters_after_safe safe _)⟩

theorem callText_ends (words : Chars) (args : List Chars) : (callText words args).getLast? = some ')' := by
  rw [callText,← List.cons_append,← List.append_assoc,List.getLast?_concat]

end Calls

section Split

variable {separator : Char} {piece : Chars}

theorem splitOn_piece (absent : separator ∉ piece) : splitOn separator piece = [piece] := by
  induction piece with
  | nil => rfl
  | cons c rest ih =>
    have other : c ≠ separator := fun same => absent (same ▸ List.mem_cons_self)
    have later := ih fun member => absent (List.mem_cons_of_mem _ member)
    simp only [splitOn,if_neg other,later]

theorem splitOn_append (absent : separator ∉ piece) (rest : Chars) :
    splitOn separator (piece ++ separator :: rest) = piece :: splitOn separator rest := by
  induction piece with
  | nil => simp [splitOn]
  | cons c more ih =>
    have other : c ≠ separator := fun same => absent (same ▸ List.mem_cons_self)
    have later := ih fun member => absent (List.mem_cons_of_mem _ member)
    simp only [List.cons_append,splitOn,if_neg other,later]

end Split

/-- No comment begins in a text. -/
def Uncommented (text : Chars) : Prop := ∀ spot ∈ spots text, spot.char = '/' → spot.rest.head? ≠ some '/'

/-- A line as it comes out of a source: not empty, without blanks at its ends, line breaks and comments. -/
structure Settled (line : Line) : Prop where
  nonempty : line ≠ []
  trimmed : Trimmed line
  oneLine : ∀ c ∈ line, c ≠ '\n' ∧ c ≠ '\r'
  uncommented : Uncommented line

/-- A logical line of a source. -/
structure Logical (line : Line) : Prop where
  nonempty : line ≠ []
  trimmed : Trimmed line
  sound : Sound line

private theorem Logical.settled {line : Line} (logical : Logical line) : Settled line :=
  ⟨logical.nonempty, logical.trimmed, logical.sound.oneLine, logical.sound.uncommented⟩

theorem logical_callText {words : Chars} {args : List Chars} (wording : isWording words = true)
    (some_ : words ≠ []) (solid : words.head?.any isBlank = false) (each : ∀ arg ∈ args, Argument arg) :
    Logical (callText words args) ∧ Steady (callText words args) := by
  obtain ⟨sound, steady⟩ := callText_sound wording each
  refine ⟨⟨List.append_ne_nil_of_left_ne_nil some_ _, ⟨first_append some_ solid _, ?_⟩, sound⟩, steady⟩
  rw [callText_ends]
  decide

private theorem logical_wording {words text : Chars} (wording : isWording words = true) (some_ : words ≠ [])
    (solid : words.head?.any isBlank = false) (arg : Argument text) :
    Logical (words ++ text) ∧ Steady (words ++ text) := by
  have safe := safe_of_wording wording
  have trimmed : Trimmed (words ++ text) :=
    ⟨first_append some_ solid _, last_append arg.nonempty arg.trimmed.last _⟩
  exact ⟨⟨List.append_ne_nil_of_left_ne_nil some_ _, trimmed, arg.sound.after_safe safe⟩,
    (steady_of_wording wording).append arg.steady (enters_after_safe safe _)⟩

theorem Keyword.identifier (keyword : Keyword) : isIdentifier keyword.word = true := by
  cases keyword <;> decide

theorem Keyword.words (keyword : Keyword) : keyword.word ≠ [] ∧ keyword.word.all isWordChar = true :=
  all_isWordChar_identifier keyword.identifier

theorem Keyword.wording (keyword : Keyword) : isWording keyword.word = true := wording_of_words keyword.words.2

theorem Keyword.solid (keyword : Keyword) : keyword.word.head?.any isBlank = false :=
  (trimmed_words keyword.words.2).first

private theorem assignText_eq (word : Chars) (name : Identifier) (expression : Fragment) :
    word ++ assignText name.text expression.text =
      (word ++ (name.text ++ [' ', '=', ' '])) ++ expression.text := by
  simp only [assignText,List.append_assoc]

/-- The line of a statement leaves the braces as they are. -/
theorem Simple.logical (statement : Simple) : Logical statement.line ∧ Steady statement.line := by
  cases statement with
  | declare isConst name expression =>
    have wording := wording_append (wording_append (bindingKeyword isConst).wording (by decide : isWording [' '] = true))
      (wording_append name.wording (by decide : isWording [' ', '=', ' '] = true))
    have some_ := (bindingKeyword isConst).words.1
    rw [Simple.line,assignText_eq]
    exact logical_wording wording
      (List.append_ne_nil_of_left_ne_nil (List.append_ne_nil_of_left_ne_nil some_ _) _)
      (first_append (List.append_ne_nil_of_left_ne_nil some_ _)
        (first_append some_ (bindingKeyword isConst).solid _) _) expression.argument
  | assign name expression =>
    exact logical_wording (wording_append name.wording (by decide))
      (List.append_ne_nil_of_left_ne_nil name.words.1 _)
      (first_append name.words.1 name.argument.trimmed.first _) expression.argument
  | giveBack expression =>
    have some_ := Keyword.giveBack.words.1
    cases expression with
    | none =>
      exact ⟨⟨some_, trimmed_words Keyword.giveBack.words.2, .of_safe (safe_of_wording Keyword.giveBack.wording)⟩,
        steady_of_wording Keyword.giveBack.wording⟩
    | some expression =>
      exact logical_wording (wording_append Keyword.giveBack.wording (by decide))
        (List.append_ne_nil_of_left_ne_nil some_ _) (first_append some_ Keyword.giveBack.solid _)
        expression.argument
  | call name args =>
    exact logical_callText name.wording name.words.1 name.argument.trimmed.first (arguments_fragments args)

private theorem headerLine_logical {words : Chars} {args : List Chars} (wording : isWording words = true)
    (some_ : words ≠ []) (solid : words.head?.any isBlank = false) (each : ∀ arg ∈ args, Argument arg) :
    Logical (headerLine words args) ∧ ∀ depth, braces depth (headerLine words args) = some (depth + 1) := by
  obtain ⟨logical, steady⟩ := logical_callText wording some_ solid each
  have safe : [' ', '{'].all isSafe = true := by decide
  have trimmed : Trimmed (headerLine words args) :=
    ⟨first_append logical.nonempty logical.trimmed.first _, last_append (by decide) (by decide) _⟩
  refine ⟨⟨List.append_ne_nil_of_left_ne_nil logical.nonempty _, trimmed, logical.sound.before_safe safe⟩, ?_⟩
  intro depth
  rw [headerLine,braces_before_safe logical.sound safe (braces_steady steady depth)]
  rfl

theorem Header.logical (header : Header) :
    Logical header.line ∧ ∀ depth, braces depth header.line = some (depth + 1) := by
  have loop := Keyword.loop.wording
  cases header with
  | count rounds =>
    refine headerLine_logical loop Keyword.loop.words.1 Keyword.loop.solid fun arg member => ?_
    obtain rfl := List.mem_singleton.mp member
    exact rounds.argument
  | range name first last =>
    refine headerLine_logical loop Keyword.loop.words.1 Keyword.loop.solid fun arg member => ?_
    simp only [List.mem_cons,List.not_mem_nil,or_false] at member
    rcases member with rfl | rfl | rfl
    · exact name.argument
    · exact first.argument
    · exact last.argument
  | define name params =>
    have some_ := Keyword.define.words.1
    have wording : isWording (' ' :: name.text) = true :=
      wording_append (by decide : isWording [' '] = true) name.wording
    exact headerLine_logical (wording_append Keyword.define.wording wording)
      (List.append_ne_nil_of_left_ne_nil some_ _) (first_append some_ Keyword.define.solid _)
      (arguments_params params)

theorem branchLine_logical (condition : Fragment) :
    Logical (branchLine condition) ∧ ∀ depth, braces depth (branchLine condition) = some (depth + 1) := by
  have some_ := Keyword.branch.words.1
  refine headerLine_logical (wording_append Keyword.branch.wording (by decide))
    (List.append_ne_nil_of_left_ne_nil some_ _) (first_append some_ Keyword.branch.solid _) fun arg member => ?_
  obtain rfl := List.mem_singleton.mp member
  exact condition.argument

theorem unifyBreaks_eq {text : Chars} (absent : '\r' ∉ text) : unifyBreaks text = text := by
  induction text with
  | nil => rfl
  | cons c rest ih =>
    have other : c ≠ '\r' := fun same => absent (same ▸ List.mem_cons_self)
    have later := ih fun member => absent (List.mem_cons_of_mem _ member)
    rw [unifyBreaks.eq_3 _ _ fun _ same => absurd same other,if_neg other,later]

private theorem stripComment_eq {line : Line} (uncommented : Uncommented line) : stripComment line = line := by
  have none : ((spots line).find? fun spot => spot.char = '/' && spot.rest.head? = some '/') = none := by
    rw [List.find?_eq_none]
    intro spot member found
    simp only [Bool.and_eq_true,decide_eq_true_eq] at found
    exact uncommented spot member found.1 found.2
  rw [stripComment,none]

private theorem mem_joinLines {lines : List Line} {c : Char} (member : c ∈ joinLines lines) :
    c = '\n' ∨ ∃ line ∈ lines, c ∈ line := by
  induction lines with
  | nil => cases member
  | cons line rest ih =>
    cases rest with
    | nil => exact .inr ⟨line, List.mem_cons_self, member⟩
    | cons other rest =>
      simp only [joinLines,List.mem_append,List.mem_cons] at member
      rcases member with here | rfl | later
      · exact .inr ⟨line, List.mem_cons_self, here⟩
      · exact .inl rfl
      · rcases ih later with feed | ⟨found, listed, inside⟩
        · exact .inl feed
        · exact .inr ⟨found, List.mem_cons_of_mem _ listed, inside⟩

private theorem splitOn_joinLines {line : Line} {lines : List Line}
    (absent : ∀ other ∈ line :: lines, '\n' ∉ other) : splitOn '\n' (joinLines (line :: lines)) = line :: lines := by
  induction lines generalizing line with
  | nil => exact splitOn_piece (absent line List.mem_cons_self)
  | cons other lines ih =>
    rw [joinLines,splitOn_append (absent line List.mem_cons_self)]
    rw [ih fun written member => absent written (List.mem_cons_of_mem _ member)]

/-- Settled lines are the lines of the source that they make up. -/
theorem lines_joinSettled {lines : List Line} (settled : ∀ line ∈ lines, Settled line) :
    Source.lines (joinLines lines) = lines := by
  cases lines with
  | nil => rfl
  | cons line rest =>
    have feedless : ∀ other ∈ line :: rest, '\n' ∉ other := fun other member feed =>
      ((settled other member).oneLine _ feed).1 rfl
    have whole : '\r' ∉ joinLines (line :: rest) := by
      intro member
      rcases mem_joinLines member with feed | ⟨other, listed, inside⟩
      · exact absurd feed (by decide)
      · exact ((settled other listed).oneLine _ inside).2 rfl
    rw [Source.lines,unifyBreaks_eq whole,splitOn_joinLines feedless]
    have same : (line :: rest).map (fun raw => trim (stripComment raw)) = line :: rest := by
      conv => rhs; rw [← List.map_id (line :: rest)]
      refine List.map_congr_left fun other member => ?_
      rw [stripComment_eq (settled other member).uncommented,(settled other member).trimmed.trim_eq]
      rfl
    rw [same,List.filter_eq_self]
    exact fun other member => by simpa using (settled other member).nonempty

theorem lines_joinLines {lines : List Line} (logical : ∀ line ∈ lines, Logical line) :
    Source.lines (joinLines lines) = lines :=
  lines_joinSettled fun line member => (logical line member).settled

section Sources

variable {text : Chars}

theorem Uncommented.append {more : Chars} (clear : Uncommented text) (slashless : '/' ∉ more) :
    Uncommented (text ++ more) := by
  intro spot member slash
  rw [spots,Scan.spots_append,List.mem_append,List.mem_map] at member
  rcases member with ⟨inner, listed, rfl⟩ | later
  · have unspoiled := clear inner listed slash
    rw [Spot.extend,List.head?_append]
    cases first : inner.rest.head? with
    | some c =>
      rw [first] at unspoiled
      exact unspoiled
    | none => exact fun begins => slashless (List.mem_of_mem_head? begins)
  · obtain ⟨before, eq⟩ := mem_spots later
    refine absurd ?_ slashless
    rw [eq,slash]
    simp

private theorem Uncommented.of_append {more : Chars} (whole : Uncommented (text ++ more)) : Uncommented text := by
  intro spot member slash follows
  have listed : spot.extend more ∈ spots (text ++ more) := by
    rw [spots,Scan.spots_append]
    exact List.mem_append_left _ (List.mem_map_of_mem member)
  refine whole _ listed slash ?_
  rw [Spot.extend,List.head?_append,follows]
  rfl

private theorem Uncommented.after_safe {before : Chars} (whole : Uncommented (before ++ text))
    (safe : before.all isSafe = true) : Uncommented text := by
  intro spot member slash
  have seen := List.mem_map_of_mem (f := Spot.view) member
  rw [← (enters_after_safe safe text).views] at seen
  obtain ⟨other, listed, same⟩ := List.mem_map.mp seen
  have char : other.char = spot.char := congrArg Prod.fst same
  have rest : other.rest = spot.rest := congrArg Prod.snd same
  have inside : other ∈ spots (before ++ text) := by
    rw [spots,Scan.spots_append]
    exact List.mem_append_right _ listed
  rw [← rest]
  exact whole other inside (char.trans slash)

private theorem uncommented_stripComment (raw : Chars) : Uncommented (stripComment raw) := by
  intro spot member slash follows
  rw [stripComment] at member
  split at member
  · rename_i comment found
    have whole := Scan.spots_append {} (raw.take comment.index) (raw.drop comment.index)
    rw [List.take_append_drop] at whole
    rw [spots,whole,List.find?_append] at found
    -- a comment before the cut would be the first one, which is not before the cut
    have early : (((({} : Scan).spots (raw.take comment.index)).map (Spot.extend (raw.drop comment.index))).find?
        fun spot => spot.char = '/' && spot.rest.head? = some '/') = some comment := by
      rw [Option.or_of_isSome] at found
      · exact found
      · rw [List.find?_isSome]
        refine ⟨_, List.mem_map_of_mem member, ?_⟩
        simp [Spot.extend,slash,List.head?_append,follows]
    obtain ⟨inner, listed, same⟩ := List.mem_map.mp (List.mem_of_find?_eq_some early)
    have bound := (Scan.index_bounds listed).2
    have index : inner.index = comment.index := by rw [← same]; rfl
    rw [List.length_take] at bound
    have start : ({} : Scan).index = 0 := rfl
    omega
  · rename_i none
    have clear := List.find?_eq_none.mp none spot member
    simp [slash,follows] at clear

private theorem mem_splitOn {separator : Char} {piece : Chars} (member : piece ∈ splitOn separator text) {c : Char}
    (inside : c ∈ piece) : c ∈ text ∧ c ≠ separator := by
  induction text generalizing piece with
  | nil =>
    rw [splitOn,List.mem_singleton] at member
    rw [member] at inside
    cases inside
  | cons first rest ih =>
    have later {piece : Chars} (member : piece ∈ splitOn separator rest) (inside : c ∈ piece) :
        c ∈ first :: rest ∧ c ≠ separator :=
      ⟨List.mem_cons_of_mem _ (ih member inside).1, (ih member inside).2⟩
    rw [splitOn] at member
    split at member
    · rcases List.mem_cons.mp member with rfl | member
      · cases inside
      · exact later member inside
    · rename_i other
      have front : c = first → c ∈ first :: rest ∧ c ≠ separator := by
        rintro rfl
        exact ⟨List.mem_cons_self, other⟩
      split at member
      · rw [List.mem_singleton.mp member] at inside
        exact front (List.mem_singleton.mp inside)
      · rename_i begun pieces split
        rcases List.mem_cons.mp member with rfl | member
        · rcases List.mem_cons.mp inside with same | inside
          · exact front same
          · exact later (by rw [split]; exact List.mem_cons_self) inside
        · exact later (by rw [split]; exact List.mem_cons_of_mem _ member) inside

private theorem ne_of_mem_unifyBreaks {c : Char} (member : c ∈ unifyBreaks text) : c ≠ '\r' := by
  induction text using unifyBreaks.induct with
  | case1 => cases member
  | case2 rest ih =>
    rw [unifyBreaks] at member
    rcases List.mem_cons.mp member with rfl | member
    · decide
    · exact ih member
  | case3 first rest apart ih =>
    rw [unifyBreaks.eq_3 _ _ apart] at member
    rcases List.mem_cons.mp member with rfl | member
    · split
      · decide
      · assumption
    · exact ih member

theorem isSafe_of_isBlank {c : Char} (blank : isBlank c = true) (oneLine : c ≠ '\n' ∧ c ≠ '\r') :
    isSafe c = true := by
  have single : c ≠ '\'' := ne_of_isBlank blank (by decide)
  have double : c ≠ '"' := ne_of_isBlank blank (by decide)
  have backslash : c ≠ '\\' := ne_of_isBlank blank (by decide)
  have slash : c ≠ '/' := ne_of_isBlank blank (by decide)
  simp [isSafe,isUnquote,single,double,backslash,slash,oneLine.1,oneLine.2]

/-- The lines of a source are settled. -/
theorem settled_lines {source : Chars} {line : Line} (member : line ∈ Source.lines source) : Settled line := by
  obtain ⟨listed, nonempty⟩ := List.mem_filter.mp member
  obtain ⟨raw, piece, rfl⟩ := List.mem_map.mp listed
  have oneLine : ∀ c ∈ stripComment raw, c ≠ '\n' ∧ c ≠ '\r' := by
    intro c inside
    have within : c ∈ raw := by
      rw [stripComment] at inside
      split at inside
      · exact List.mem_of_mem_take inside
      · exact inside
    obtain ⟨among, other⟩ := mem_splitOn piece within
    exact ⟨other, ne_of_mem_unifyBreaks among⟩
  refine ⟨by simpa using nonempty, trimmed_trim _, fun c inside => oneLine c ((isInfix_trim _).subset inside), ?_⟩
  have safe : ((stripComment raw).takeWhile isBlank).all isSafe = true := by
    rw [List.all_eq_true]
    intro c inside
    exact isSafe_of_isBlank (List.all_eq_true.mp List.all_takeWhile c inside)
      (oneLine c ((List.takeWhile_prefix _).subset inside))
  obtain ⟨back, after⟩ := isPrefix_trimEnd (trimStart (stripComment raw))
  have whole := uncommented_stripComment raw
  rw [← List.takeWhile_append_dropWhile (p := isBlank) (l := stripComment raw),← trimStart,← after] at whole
  exact (whole.after_safe safe).of_append

end Sources

end Inyandiko
