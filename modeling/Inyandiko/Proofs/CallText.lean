import Inyandiko.Proofs.Expression.Scan

/-! Lists of arguments in parentheses. Tokens with closed quotes, nested brackets and no comma outside them can be
listed with commas between them and blanks around each, and are the pieces that the list is cut into. Whatever else
stands between the parentheses of a call is cut into pieces, too, and the pieces make up all of it. -/
namespace Inyandiko

open Text

section Blanks

variable {pad : Chars} {scan : Scan}

private theorem isUnquote_of_isBlank {c : Char} (blank : isBlank c = true) : isUnquote c = true := by
  have single : c ≠ '\'' := ne_of_isBlank blank (by decide)
  have double : c ≠ '"' := ne_of_isBlank blank (by decide)
  simp [isUnquote,single,double]

private theorem isUnquote_of_blanks (blank : pad.all isBlank = true) : pad.all isUnquote = true := by
  rw [List.all_eq_true] at blank ⊢
  exact fun c member => isUnquote_of_isBlank (blank c member)

private theorem steady_blanks (blank : pad.all isBlank = true) : Steady pad := by
  apply Steady.of_unquote (isUnquote_of_blanks blank)
  apply dueAfter_plain
  rw [List.all_eq_true] at blank ⊢
  intro c member
  have other {d : Char} (solid : isBlank d = false) : c ≠ d := ne_of_isBlank (blank c member) solid
  simp [opens,closes,other (by decide : isBlank '(' = false),other (by decide : isBlank '[' = false),
    other (by decide : isBlank '{' = false),other (by decide : isBlank ')' = false),
    other (by decide : isBlank ']' = false),other (by decide : isBlank '}' = false)]

private theorem escaped_after_blanks (blank : pad.all isBlank = true) (fresh : scan.escaped = false) :
    (scan.after pad).escaped = false := by
  induction pad generalizing scan with
  | nil => exact fresh
  | cons c rest ih =>
    simp only [List.all_cons,Bool.and_eq_true] at blank
    exact ih blank.2 (decide_eq_false (ne_of_isBlank blank.1 (by decide)))

private theorem enters_after_blanks (blank : pad.all isBlank = true) (text : Chars) :
    (({} : Scan).after pad).Enters text :=
  .of_fresh (steady_blanks blank).closed (escaped_after_blanks blank rfl) text

private theorem Text.Steady.enters_blanks {text : Chars} (steady : Steady text) (blank : pad.all isBlank = true) :
    (({} : Scan).after text).Enters pad := by
  refine ⟨steady.closed, fun _ => ?_⟩
  cases pad with
  | nil => rfl
  | cons c rest =>
    simp only [List.all_cons,Bool.and_eq_true] at blank
    exact isUnquote_of_isBlank blank.1

end Blanks

section Commas

/-- No comma stands outside all brackets. -/
def Undivided (due : List Char) (chars : Chars) : Prop :=
  ∀ front back, chars = front ++ ',' :: back → dueAfter due front ≠ some []

private theorem undivided_cons {due : List Char} {c : Char} {rest : Chars} :
    Undivided due (c :: rest) ↔ (c = ',' → due ≠ []) ∧
      ∀ front back, rest = front ++ ',' :: back → dueAfter due (c :: front) ≠ some [] := by
  constructor
  · intro whole
    refine ⟨?_, fun front back eq => whole (c :: front) back (by rw [eq]; rfl)⟩
    rintro rfl rfl
    exact whole [] rest rfl rfl
  · rintro ⟨first, later⟩ front back eq
    cases front with
    | nil =>
      cases eq
      exact fun none => first rfl (Option.some.inj none)
    | cons d front =>
      cases eq
      exact later front back rfl

/-- In nested brackets, the commas at depth zero are those that no closing bracket is due at. -/
private theorem topLevelCommas_eq_nil_iff {due : List Char} {found : List Spot}
    (nested : dueAfter due (found.map Spot.char) ≠ none) :
    topLevelCommas due.length found = [] ↔ Undivided due (found.map Spot.char) := by
  induction found generalizing due with
  | nil => exact iff_of_true rfl fun front back eq => by simp at eq
  | cons spot rest ih =>
    rw [List.map_cons] at nested ⊢
    rw [undivided_cons]
    simp only [topLevelCommas,dueAfter] at nested ⊢
    have other {p : Char → Bool} (holds : p spot.char = true) (not : p ',' = false) : spot.char ≠ ',' := by
      intro same
      rw [same,not] at holds
      cases holds
    cases opening : opens spot.char with
    | true =>
      simp only [opening,if_true,other opening rfl,false_implies,true_and] at nested ⊢
      exact ih nested
    | false =>
      simp only [opening,Bool.false_eq_true,if_false] at nested ⊢
      cases closing : closes spot.char with
      | true =>
        simp only [closing,if_true,other closing rfl,false_implies,true_and] at nested ⊢
        cases due with
        | nil => exact absurd rfl nested
        | cons closer due =>
          have back : ((closer :: due).length : Int) - 1 = due.length := by simp
          dsimp only at nested ⊢
          by_cases same : closer = spot.char
          · rw [if_pos same] at nested
            simp only [if_pos same,back]
            exact ih nested
          · rw [if_neg same] at nested
            exact absurd rfl nested
      | false =>
        simp only [closing,Bool.false_eq_true,if_false] at nested ⊢
        have later := ih nested
        rw [Undivided] at later
        by_cases comma : spot.char = ','
        · cases due with
          | nil => simp [comma]
          | cons closer due =>
            have inside : ¬(((closer :: due).length : Int) = 0) := by
              rw [List.length_cons]
              omega
            simp only [comma,inside,decide_true,decide_false,Bool.and_false,Bool.false_eq_true,if_false,later,
              ne_eq,reduceCtorEq,not_false_eq_true,implies_true,true_and]
        · simp only [comma,decide_false,Bool.false_and,Bool.false_eq_true,if_false,later,false_implies,true_and]

private theorem Undivided.append {first second : Chars} (one : Undivided [] first)
    (nested : dueAfter [] first = some [])
    (two : Undivided [] second) : Undivided [] (first ++ second) := by
  intro front back eq
  rcases List.append_eq_append_iff.mp eq with ⟨middle, rfl, later⟩ | ⟨middle, inside, later⟩
  · rw [dueAfter_append,nested]
    exact two middle back later
  · cases middle with
    | nil => exact absurd rfl (two [] back later.symm)
    | cons c middle =>
      cases later
      exact one front middle inside

end Commas

/-- A token that can be listed between commas. -/
structure Listable (token : Chars) : Prop where
  nonempty : token ≠ []
  trimmed : Trimmed token
  steady : Steady token
  undivided : Undivided [] (code token)

theorem Listable.of_commas {token : Chars} (nonempty : token ≠ []) (trimmed : Trimmed token) (steady : Steady token)
    (commas : topLevelCommas 0 (spots token) = []) : Listable token := by
  refine ⟨nonempty, trimmed, steady, (@topLevelCommas_eq_nil_iff [] (spots token) ?_).mp commas⟩
  rw [← code,steady.nested]
  exact Option.some_ne_none _

/-- The texts that list tokens, with commas between them and blanks around each. -/
inductive Listing : List Chars → Chars → Prop
  | none {pad : Chars} (blank : pad.all isBlank = true) : Listing [] pad
  | last {before token after : Chars} (blankBefore : before.all isBlank = true) (blankAfter : after.all isBlank = true) :
    Listing [token] (before ++ token ++ after)
  | more {before token after text : Chars} {tokens : List Chars} (blankBefore : before.all isBlank = true)
    (blankAfter : after.all isBlank = true) (some_ : tokens ≠ []) (later : Listing tokens text) :
    Listing (token :: tokens) (before ++ token ++ after ++ ',' :: text)

/-- A piece of a list: nothing in it disturbs what is around it, and no comma divides it. -/
structure Whole (piece : Chars) : Prop where
  steady : Steady piece
  undivided : Undivided [] (code piece)

private theorem Listable.whole {token : Chars} (listable : Listable token) : Whole token :=
  ⟨listable.steady, listable.undivided⟩

private theorem whole_blanks {pad : Chars} (blank : pad.all isBlank = true) : Whole pad := by
  refine ⟨steady_blanks blank, fun front back eq => ?_⟩
  rw [code,spots,Scan.chars_unquote rfl (isUnquote_of_blanks blank)] at eq
  have comma : isBlank ',' = true := List.all_eq_true.mp blank ',' (by rw [eq]; simp)
  exact absurd comma (by decide)

namespace Whole

private theorem append {first second : Chars} (one : Whole first) (two : Whole second)
    (enters : (({} : Scan).after first).Enters second) : Whole (first ++ second) where
  steady := one.steady.append two.steady enters
  undivided := by
    rw [code_append enters]
    exact one.undivided.append one.steady.nested two.undivided

private theorem pad {token before after : Chars} (whole : Whole token) (blankBefore : before.all isBlank = true)
    (blankAfter : after.all isBlank = true) : Whole (before ++ token ++ after) := by
  have begun := (whole_blanks blankBefore).append whole (enters_after_blanks blankBefore token)
  exact begun.append (whole_blanks blankAfter) (begun.steady.enters_blanks blankAfter)

variable {piece : Chars} {scan : Scan}

private theorem commas (whole : Whole piece) {found : List Spot} (same : found.map Spot.char = code piece) :
    topLevelCommas 0 found = [] := by
  refine (@topLevelCommas_eq_nil_iff [] _ ?_).mpr ?_
  · rw [same,whole.steady.nested]
    exact nofun
  · rw [same]
    exact whole.undivided

private theorem inCode (whole : Whole piece) (enters : scan.Enters piece) : (scan.after piece).span = .code :=
  enters.span_after.trans whole.steady.closed

private theorem enters_after_comma (whole : Whole piece) (enters : scan.Enters piece) (text : Chars) :
    ((scan.after piece).next ',').Enters text :=
  .of_fresh (Scan.span_next_unquote (whole.inCode enters) (by decide)) rfl text

private theorem commas_cons (whole : Whole piece) (enters : scan.Enters piece) (text : Chars) :
    topLevelCommas 0 (scan.spots (piece ++ ',' :: text)) =
      (scan.index + piece.length) :: topLevelCommas 0 (((scan.after piece).next ',').spots text) := by
  have own : topLevelCommas 0 ((scan.spots piece).map (Spot.extend (',' :: text))) = [] := by
    refine whole.commas ?_
    rw [List.map_map]
    exact enters.chars
  have passed := whole.steady.topLevelCommas enters 0 (',' :: text)
  refine passed.trans ?_
  rw [show ((0 : Nat) : Int) = 0 from rfl,own,List.nil_append,Scan.spots_unquote (whole.inCode enters) (by decide)]
  simp [topLevelCommas,opens,closes,Scan.index_after]

end Whole

private theorem cutAt_cons (start : Nat) (piece text : Chars) (c : Char) (indexes : List Nat) :
    cutAt start (piece ++ c :: text) ((start + piece.length) :: indexes) =
      piece :: cutAt (start + piece.length + 1) text indexes := by
  have here : start + piece.length - start = piece.length := by omega
  have there : start + piece.length + 1 - start = (piece ++ [c]).length := by
    rw [List.length_append,List.length_singleton]
    omega
  have split : piece ++ c :: text = (piece ++ [c]) ++ text := by simp
  rw [cutAt,here,List.take_left,there,split,List.drop_left]

section Lists

variable {tokens : List Chars} {text : Chars} {scan : Scan}

private theorem cutAt_listing (listing : Listing tokens text) (some_ : tokens ≠ [])
    (each : ∀ token ∈ tokens, Listable token)
    (inCode : scan.span = .code) (fresh : scan.escaped = false) :
    (cutAt scan.index text (topLevelCommas 0 (scan.spots text))).map trim = tokens := by
  induction listing generalizing scan with
  | none => exact absurd rfl some_
  | @last before token after blankBefore blankAfter =>
    have listable := each token List.mem_cons_self
    have enters : scan.Enters (before ++ token ++ after) := .of_fresh inCode fresh _
    rw [(listable.whole.pad blankBefore blankAfter).commas enters.chars,cutAt,List.map_singleton,
      listable.trimmed.trim_pad blankBefore blankAfter]
  | @more before token after text tokens blankBefore blankAfter some_' later ih =>
    have listable := each token List.mem_cons_self
    have whole := listable.whole.pad blankBefore blankAfter
    have trimmed := listable.trimmed.trim_pad blankBefore blankAfter
    generalize before ++ token ++ after = piece at *
    have enters : scan.Enters piece := .of_fresh inCode fresh piece
    have rest := ih some_' (fun other member => each other (List.mem_cons_of_mem _ member))
      (whole.enters_after_comma enters text).inCode rfl
    have start : ((scan.after piece).next ',').index = scan.index + piece.length + 1 := by
      simp [Scan.next,Scan.index_after]
    rw [start] at rest
    rw [whole.commas_cons enters text,cutAt_cons,List.map_cons,trimmed,rest]

theorem splitTopLevel_listing (listing : Listing tokens text) (each : ∀ token ∈ tokens, Listable token) :
    splitTopLevel text = tokens := by
  by_cases some_ : tokens = []
  · subst some_
    cases listing with
    | none blank =>
      have gone := trim_blanks blank []
      rw [List.nil_append] at gone
      rw [splitTopLevel,(whole_blanks blank).commas rfl,cutAt,List.map_singleton,gone]
      rfl
  · have pieces : (cutAt 0 text (topLevelCommas 0 (spots text))).map trim = tokens :=
      @cutAt_listing tokens text {} listing some_ each rfl rfl
    have last : tokens.getLast? ≠ some [] := by
      intro empty
      exact (each [] (List.mem_of_getLast? empty)).nonempty rfl
    rw [splitTopLevel,pieces,if_neg last]

theorem Listing.steady (listing : Listing tokens text) (each : ∀ token ∈ tokens, Listable token) : Steady text := by
  induction listing with
  | none blank => exact steady_blanks blank
  | @last _ token _ blankBefore blankAfter =>
    exact ((each token List.mem_cons_self).whole.pad blankBefore blankAfter).steady
  | @more before token after text tokens blankBefore blankAfter _ _ ih =>
    have first := (each token List.mem_cons_self).whole.pad blankBefore blankAfter
    have rest := ih fun other member => each other (List.mem_cons_of_mem _ member)
    have comma : Steady [','] := .of_unquote rfl rfl
    have fresh : ({} : Scan).Enters (before ++ token ++ after) := .of_fresh rfl rfl _
    have behind := first.enters_after_comma fresh text
    rw [← List.singleton_append,← List.append_assoc]
    refine (first.steady.append comma ⟨first.steady.closed, fun _ => rfl⟩).append rest ?_
    rw [Scan.after_append]
    exact behind

theorem exists_pads (text : Chars) : ∃ before after : Chars,
    before.all isBlank = true ∧ after.all isBlank = true ∧ text = before ++ trim text ++ after := by
  obtain ⟨after, blank, eq⟩ := exists_trimEnd (trimStart text)
  refine ⟨text.takeWhile isBlank, after, List.all_takeWhile, blank, ?_⟩
  rw [List.append_assoc,trim,← eq,trimStart,List.takeWhile_append_dropWhile]

private theorem cutAt_ne_nil (start : Nat) (text : Chars) (indexes : List Nat) : cutAt start text indexes ≠ [] := by
  cases indexes <;> exact List.cons_ne_nil _ _

private theorem listing_cutAt (text front : Chars) (depth : Int) {start : Nat}
    (place : scan.index = start + front.length) :
    Listing ((cutAt start (front ++ text) (topLevelCommas depth (scan.spots text))).map trim) (front ++ text) := by
  -- the front is what stands between the last cut and the rest of the text
  induction text generalizing scan front depth start with
  | nil =>
    obtain ⟨before, after, blankBefore, blankAfter, eq⟩ := exists_pads front
    have last := @Listing.last before (trim front) after blankBefore blankAfter
    rw [List.append_nil]
    rwa [← eq] at last
  | cons c text ih =>
    have onward (depth : Int) :
        Listing ((cutAt start (front ++ c :: text) (topLevelCommas depth ((scan.next c).spots text))).map trim)
          (front ++ c :: text) := by
      have later := @ih (scan.next c) (front ++ [c]) depth start (by simp [Scan.next,place]; omega)
      rwa [List.append_assoc,List.singleton_append] at later
    rw [Scan.spots]
    split
    · rw [topLevelCommas]
      split
      · exact onward _
      · split
        · exact onward _
        · split
          · rename_i comma
            simp only [Bool.and_eq_true,decide_eq_true_eq] at comma
            obtain ⟨rfl, rfl⟩ := comma
            obtain ⟨before, after, blankBefore, blankAfter, eq⟩ := exists_pads front
            have later := @ih (scan.next ',') [] 0 (start + front.length + 1) (by simp [Scan.next,place])
            rw [List.nil_append] at later
            have more := @Listing.more before (trim front) after text _ blankBefore blankAfter
              (by simpa using cutAt_ne_nil _ _ _) later
            rw [← eq] at more
            dsimp only
            rwa [place,cutAt_cons,List.map_cons]
          · exact onward _
    · exact onward _

/-- The arguments of a list, an empty last one apart, make up the list. -/
theorem listing_splitTopLevel (text : Chars) :
    Listing (splitTopLevel text) text ∨ Listing (splitTopLevel text ++ [[]]) text := by
  have whole : Listing ((cutAt 0 text (topLevelCommas 0 (spots text))).map trim) text :=
    @listing_cutAt {} text [] 0 0 rfl
  rw [splitTopLevel]
  split
  · rename_i last
    obtain ⟨front, eq⟩ := List.getLast?_eq_some_iff.mp last
    rw [eq] at whole ⊢
    rw [List.dropLast_concat]
    exact .inr whole
  · exact .inl whole

theorem trimmed_splitTopLevel (text : Chars) : ∀ token ∈ splitTopLevel text, Trimmed token := by
  intro token member
  have among : token ∈ (cutAt 0 text (topLevelCommas 0 (spots text))).map trim := by
    rw [splitTopLevel] at member
    split at member
    · exact List.dropLast_subset _ member
    · exact member
  obtain ⟨piece, _, rfl⟩ := List.mem_map.mp among
  exact trimmed_trim piece

end Lists

section Parentheses

/-- A text whose parentheses outside quotes are balanced, so that an opening parenthesis before it is closed right
behind it. -/
structure Enclosed (inner : Chars) : Prop where
  closed : (({} : Scan).after inner).span = .code
  balanced : depthAfter (· = ')') 0 (code inner) = some 0

theorem Text.Steady.enclosed {inner : Chars} (steady : Steady inner) : Enclosed inner :=
  ⟨steady.closed, steady.depth _ 0⟩

/-- The parentheses are balanced at the last character of a text exactly if it closes what is open before it and
nothing closes that earlier. -/
private theorem balancedAt_concat (inner : Chars) (c : Char) (scan : Scan) (depth : Nat) :
    balancedAt (depth + 1) (scan.spots (inner ++ [c])) = some (scan.index + inner.length) ↔
      c = ')' ∧ (scan.after inner).span = .code ∧
        depthAfter (· = ')') depth ((scan.spots inner).map Spot.char) = some 0 := by
  induction inner generalizing scan depth with
  | nil =>
    by_cases closing : c = ')'
    · subst closing
      cases span : scan.span with
      | code =>
        rw [List.nil_append,Scan.spots_unquote span (by decide)]
        simp [balancedAt,Scan.after_nil,span,Scan.spots,depthAfter]
      | single | double => simp [Scan.spots,Scan.sees,span,balancedAt,Scan.after_nil]
    · simp only [List.nil_append,Scan.spots]
      split <;> simp [balancedAt,closing]
  | cons d inner ih =>
    have next : scan.index + (d :: inner).length = (scan.next d).index + inner.length := by
      simp [Scan.next]
      omega
    rw [next,List.cons_append,Scan.spots,Scan.spots,Scan.after_cons]
    split
    · rw [balancedAt,List.map_cons,depthAfter_cons,opens_paren,closes_paren]
      dsimp only
      by_cases opening : d = '('
      · simp only [opening,if_true,decide_true]
        exact ih _ (depth + 1)
      · by_cases closing : d = ')'
        · subst closing
          cases depth with
          | zero =>
            have early : scan.index ≠ (scan.next ')').index + inner.length := by
              simp only [Scan.next]
              omega
            simp [early]
          | succ depth =>
            have down : ((depth + 1 : Nat) : Int) + 1 - 1 = (depth : Int) + 1 := by omega
            have inside : ¬((depth : Int) + 1 = 0) := by omega
            rw [if_neg (by decide),if_pos rfl,down,if_neg inside]
            exact ih _ depth
        · simp only [opening,closing,if_false,decide_false]
          exact ih _ depth
    · exact ih _ depth

private theorem spots_from (first rest : Chars) :
    (spots (first ++ rest)).filter (fun spot => (first.length : Int) ≤ spot.index) =
      (({} : Scan).after first).spots rest := by
  have start : (({} : Scan).after first).index = first.length := by
    rw [Scan.index_after,Nat.zero_add]
  have gone : ((({} : Scan).spots first).map (Spot.extend rest)).filter
      (fun spot => (first.length : Int) ≤ spot.index) = [] := by
    rw [List.filter_eq_nil_iff]
    intro spot member kept
    obtain ⟨inner, listed, rfl⟩ := List.mem_map.mp member
    have bounds : inner.index < 0 + first.length := (Scan.index_bounds listed).2
    have low : (first.length : Int) ≤ inner.index := of_decide_eq_true kept
    omega
  rw [spots,Scan.spots_append,List.filter_append,gone,List.nil_append,List.filter_eq_self]
  intro spot member
  have bounds := (Scan.index_bounds member).1
  simp only [decide_eq_true_eq]
  omega

section Matching

variable {words : Chars} (unquote : words.all isUnquote = true)
include unquote

private theorem matchingParen_eq (tail : Chars) :
    matchingParen (words ++ '(' :: tail) words.length =
      balancedAt (((0 : Nat) : Int) + 1) (((({} : Scan).after words).next '(').spots tail) := by
  rw [matchingParen,spots_from,Scan.spots_unquote (Scan.span_after_unquote rfl unquote) (by decide),balancedAt,
    if_pos rfl]
  rfl

/-- The parenthesis behind words is closed at the last character exactly if the text between them is enclosed. -/
private theorem matchingParen_concat (inner : Chars) (c : Char) :
    matchingParen (words ++ '(' :: (inner ++ [c])) words.length =
        some ((words ++ '(' :: (inner ++ [c])).length - 1) ↔ c = ')' ∧ Enclosed inner := by
  have opened : ((({} : Scan).after words).next '(').span = .code :=
    Scan.span_next_unquote (Scan.span_after_unquote rfl unquote) (by decide)
  have enters : ((({} : Scan).after words).next '(').Enters inner := .of_fresh opened rfl inner
  have last : (words ++ '(' :: (inner ++ [c])).length - 1 =
      ((({} : Scan).after words).next '(').index + inner.length := by
    simp only [Scan.next,Scan.index_after,List.length_append,List.length_cons,List.length_nil]
    omega
  rw [matchingParen_eq unquote,last,balancedAt_concat,enters.span_after,enters.chars]
  exact and_congr_right fun _ => ⟨fun both => ⟨both.1, both.2⟩, fun whole => ⟨whole.closed, whole.balanced⟩⟩

private theorem matchingParen_end : matchingParen (words ++ ['(']) words.length = none := by
  rw [matchingParen_eq unquote]
  rfl

end Matching

end Parentheses

section Calls

/-- The texts of calls: a name, and behind it an inner text in parentheses that close at the end. -/
structure Spelled (name inner text : Chars) : Prop where
  identifier : isIdentifier name = true
  enclosed : Enclosed inner
  shape : ∃ gap : Chars, gap.all isBlank = true ∧ text = name ++ gap ++ '(' :: (inner ++ [')'])

private theorem eq_append_of_leadingName? {text name rest : Chars} (read : leadingName? text = some (name, rest)) :
    text = name ++ rest ∧ isIdentifier name = true := by
  cases text with
  | nil => cases read
  | cons c text =>
    rw [leadingName?] at read
    split at read
    · rename_i start
      cases read
      rw [List.cons_append,List.takeWhile_append_dropWhile,isIdentifier,start,List.all_takeWhile]
      exact ⟨rfl, rfl⟩
    · cases read

private theorem isUnquote_of_identifier {name : Chars} (identifier : isIdentifier name = true) :
    name.all isUnquote = true := by
  have words := (all_isWordChar_identifier identifier).2
  rw [List.all_eq_true] at words ⊢
  intro c member
  have quiet := isWordChar_isQuiet (words c member)
  simp only [isQuiet,Bool.and_eq_true] at quiet
  exact quiet.1.1.1

private theorem isUnquote_of_name_gap {name gap : Chars} (identifier : isIdentifier name = true)
    (blank : gap.all isBlank = true) : (name ++ gap).all isUnquote = true := by
  rw [List.all_append,isUnquote_of_identifier identifier,isUnquote_of_blanks blank]
  rfl

theorem not_isNamePart_of_isBlank {c : Char} (blank : isBlank c = true) : isNamePart c = false := by
  cases part : isNamePart c with
  | false => rfl
  | true =>
    rw [isBlank_of_isWordChar (by simp [isWordChar,part])] at blank
    cases blank

private theorem leadingName?_spelled {name gap : Chars} (identifier : isIdentifier name = true)
    (blank : gap.all isBlank = true) (tail : Chars) :
    leadingName? (name ++ gap ++ '(' :: tail) = some (name, gap ++ '(' :: tail) := by
  rw [List.append_assoc]
  apply leadingName?_append identifier
  cases gap with
  | nil => exact (by decide : isNamePart '(' = false)
  | cons c gap =>
    simp only [List.all_cons,Bool.and_eq_true] at blank
    exact not_isNamePart_of_isBlank blank.1

private theorem trimStart_gap {gap : Chars} (blank : gap.all isBlank = true) (tail : Chars) :
    trimStart (gap ++ '(' :: tail) = '(' :: tail := by
  rw [trimStart_blanks blank]
  exact trimStart_of_first (by decide : isBlank '(' = false)

private theorem dropLast_drop (words inner : Chars) (c d : Char) :
    ((words ++ c :: (inner ++ [d])).drop (words.length + 1)).dropLast = inner := by
  rw [← List.drop_drop,List.drop_left,List.drop_succ_cons,List.drop_zero,List.dropLast_concat]

theorem Spelled.parse? {name inner text line : Chars} (spelled : Spelled name inner text)
    (shown : stripSemicolon (trim line) = text) :
    Call.parse? line = some ⟨String.ofList name, splitTopLevel inner, text⟩ := by
  obtain ⟨gap, blank, shape⟩ := spelled.shape
  have read := leadingName?_spelled spelled.identifier blank (inner ++ [')'])
  rw [← shape] at read
  have start : text.length - ('(' :: (inner ++ [')'])).length = (name ++ gap).length := by
    rw [shape,List.length_append]
    omega
  have matching : matchingParen text (name ++ gap).length = some (text.length - 1) := by
    rw [shape]
    exact (matchingParen_concat (isUnquote_of_name_gap spelled.identifier blank) inner ')').mpr ⟨rfl, spelled.enclosed⟩
  have between : (text.drop ((name ++ gap).length + 1)).dropLast = inner := by rw [shape,dropLast_drop]
  simp only [Call.parse?,shown,read,bind,Option.bind,trimStart_gap blank,start,matching,if_true,between]

/-- A line that is read as a call is, without its semicolon, the text of this call. -/
theorem Call.spelled_of_parse? {line : Chars} {call : Call} (read : Call.parse? line = some call) :
    stripSemicolon (trim line) = call.line ∧
      ∃ inner, Spelled call.name.toList inner call.line ∧ call.args = splitTopLevel inner := by
  simp only [Call.parse?,bind,Option.bind_eq_some_iff] at read
  obtain ⟨⟨name, rest⟩, named, read⟩ := read
  generalize stripSemicolon (trim line) = text at *
  obtain ⟨shape, identifier⟩ := eq_append_of_leadingName? named
  dsimp only at read
  split at read
  · rename_i tail opened
    have blank : (rest.takeWhile isBlank).all isBlank = true := List.all_takeWhile
    have gapped : rest = rest.takeWhile isBlank ++ '(' :: tail := by
      rw [← opened,trimStart,List.takeWhile_append_dropWhile]
    generalize rest.takeWhile isBlank = gap at *
    have unquote := isUnquote_of_name_gap identifier blank
    have whole : text = name ++ gap ++ '(' :: tail := by rw [shape,gapped,List.append_assoc]
    have start : text.length - (trimStart rest).length = (name ++ gap).length := by
      rw [opened,whole,List.length_append]
      omega
    rw [start,Option.ite_none_right_eq_some] at read
    obtain ⟨matching, made⟩ := read
    cases made
    rcases List.eq_nil_or_concat tail with rfl | ⟨inner, c, rfl⟩
    · rw [whole,matchingParen_end unquote] at matching
      cases matching
    · rw [List.concat_eq_append] at whole
      rw [whole] at matching
      obtain ⟨rfl, enclosed⟩ := (matchingParen_concat unquote inner c).mp matching
      have spelled : Spelled name inner text := ⟨identifier, enclosed, gap, blank, whole⟩
      refine ⟨rfl, inner, ?_, ?_⟩
      · rw [String.toList_ofList]
        exact spelled
      · dsimp only
        rw [whole,dropLast_drop]
  · cases read

end Calls

end Inyandiko
