import Inyandiko.Proofs.Program.Line

/-! Sources and their layout. A line break between two texts separates their lines, whichever break it is and
whatever stands next to it. So the lines of a source are those of its physical lines, one by one, and changes
that say nothing leave them as they are: other line breaks, more lines without a statement, another indentation
and comments at the ends of lines. The lines of a source, joined, are a source with the same lines. -/
namespace Inyandiko

open Text

namespace Text

private theorem splitOn_ne_nil (separator : Char) (text : Chars) : splitOn separator text ≠ [] := by
  cases text with
  | nil => simp [splitOn]
  | cons c rest =>
    rw [splitOn]
    split
    · simp
    · split <;> simp

private theorem splitOn_separated (separator : Char) (first second : Chars) :
    splitOn separator (first ++ separator :: second) = splitOn separator first ++ splitOn separator second := by
  induction first with
  | nil => simp [splitOn]
  | cons c rest ih =>
    rw [List.cons_append,splitOn,splitOn,ih]
    split
    · rfl
    · obtain ⟨piece, pieces, split⟩ := List.exists_cons_of_ne_nil (splitOn_ne_nil separator rest)
      rw [split]
      rfl

/-- Whether a comment begins at a spot. -/
def Spot.beginsComment (spot : Spot) : Bool := spot.char = '/' && spot.rest.head? = some '/'

namespace Scan

/-- The text that a scan goes through before a comment begins. -/
def upToComment (scan : Scan) : Chars → Chars
  | [] => []
  | c :: rest =>
    if scan.sees c && (c = '/' && rest.head? = some '/') then [] else c :: (scan.next c).upToComment rest

private theorem upToComment_eq (scan : Scan) (text : Chars) :
    scan.upToComment text =
      ((scan.spots text).find? Spot.beginsComment).elim text fun spot => text.take (spot.index - scan.index) := by
  induction text generalizing scan with
  | nil => rfl
  | cons c rest ih =>
    have later : c :: (scan.next c).upToComment rest =
        (((scan.next c).spots rest).find? Spot.beginsComment).elim (c :: rest) fun spot =>
          (c :: rest).take (spot.index - scan.index) := by
      rw [ih]
      cases found : ((scan.next c).spots rest).find? Spot.beginsComment with
      | none => rfl
      | some spot =>
        have bounds := (index_bounds (List.mem_of_find?_eq_some found)).1
        have start : (scan.next c).index = scan.index + 1 := rfl
        have further : spot.index - scan.index = spot.index - (scan.index + 1) + 1 := by omega
        rw [Option.elim_some,Option.elim_some,further,List.take_succ_cons,start]
    rw [upToComment,spots]
    cases seen : scan.sees c with
    | false => exact later
    | true =>
      rw [if_pos rfl,List.find?_cons,Bool.true_and,Spot.beginsComment]
      cases begins : (decide (c = '/') && decide (rest.head? = some '/')) with
      | true => simp
      | false => exact later

private theorem Like.upToComment {one two : Scan} (like : one.Like two) (text : Chars) :
    one.upToComment text = two.upToComment text := by
  induction text generalizing one two with
  | nil => rfl
  | cons c rest ih =>
    have sees : one.sees c = two.sees c := by simp only [sees,like.1,like.2]
    rw [Scan.upToComment,Scan.upToComment,sees,ih (like.next c)]

private theorem upToComment_append (scan : Scan) {first : Chars} (slashless : '/' ∉ first) (second : Chars) :
    scan.upToComment (first ++ second) = first ++ (scan.after first).upToComment second := by
  induction first generalizing scan with
  | nil => rfl
  | cons c rest ih =>
    rw [List.mem_cons,not_or] at slashless
    rw [List.cons_append,upToComment,ih _ slashless.2]
    simp [Ne.symm slashless.1,after_cons]

/-- A comment behind a text whose quotes are closed leaves the space before it, or nothing if the text already
has a comment. -/
private theorem upToComment_annotated {scan : Scan} {text : Chars}
    (closed : (scan.after (scan.upToComment text)).span = .code) (note : Chars) :
    ∃ pad, pad.all isBlank = true ∧
      scan.upToComment (text ++ ' ' :: '/' :: '/' :: note) = scan.upToComment text ++ pad := by
  induction text generalizing scan with
  | nil =>
    have inCode : (scan.next ' ').span = .code := span_next_unquote closed (by decide)
    have seen : (scan.next ' ').sees '/' = true := sees_unquote inCode (by decide)
    refine ⟨[' '], by decide, ?_⟩
    simp [upToComment,seen]
  | cons c rest ih =>
    -- the space keeps a slash at the end of the text from being half of a comment
    have same : ((rest ++ ' ' :: '/' :: '/' :: note).head? = some '/') = (rest.head? = some '/') := by
      cases rest <;> simp
    rw [List.cons_append,upToComment,upToComment]
    simp only [same]
    split
    · exact ⟨[], rfl, rfl⟩
    · rename_i goesOn
      rw [upToComment,if_neg goesOn] at closed
      obtain ⟨pad, blank, eq⟩ := ih closed
      exact ⟨pad, blank, by rw [eq]; rfl⟩

end Scan

end Text

namespace Source

/-- The line breaks. -/
inductive LineBreak
  | feed
  | carriage
  | both

/-- The characters of a line break. -/
def LineBreak.text : LineBreak → Chars
  | .feed => ['\n']
  | .carriage => ['\r']
  | .both => ['\r', '\n']

/-- A text without line breaks. -/
def OneLine (text : Chars) : Prop := ∀ c ∈ text, c ≠ '\n' ∧ c ≠ '\r'

instance (text : Chars) : Decidable (OneLine text) :=
  decidable_of_iff (text.all (fun c => c ≠ '\n' && c ≠ '\r') = true) (by simp [OneLine])

/-- A source that consists of texts with line breaks between them. -/
inductive Laid : List Chars → Chars → Prop
  | last (raw : Chars) : Laid [raw] raw
  | cons (raw : Chars) (lineBreak : LineBreak) {raws : List Chars} {rest : Chars} (laid : Laid raws rest) :
      Laid (raw :: raws) (raw ++ (lineBreak.text ++ rest))

/-- A physical line that holds nothing but blanks and a comment. -/
inductive Idle : Chars → Prop
  | blank {pad : Chars} (blank : pad.all isBlank = true) (oneLine : OneLine pad) : Idle pad
  | comment {pad : Chars} (blank : pad.all isBlank = true) (oneLine : OneLine pad) {note : Chars}
      (within : OneLine note) : Idle (pad ++ '/' :: '/' :: note)

/-- The quotes of a physical line are closed, at least where a comment in it begins. -/
def Closed (raw : Chars) : Prop := (({} : Scan).after (stripComment raw)).span = .code

instance (raw : Chars) : Decidable (Closed raw) := inferInstanceAs (Decidable (_ = Span.code))

/-- A physical line after changes that say nothing: other blanks at its start, and a comment behind it if its quotes
are closed. -/
inductive Retouched (raw : Chars) : Chars → Prop
  | same : Retouched raw raw
  | indented {before text after : Chars} (old : before.all isBlank = true) (new : after.all isBlank = true)
      (oneLine : OneLine after) (so : Retouched raw (before ++ text)) : Retouched raw (after ++ text)
  | annotated {text note : Chars} (closed : Closed text) (oneLine : OneLine note) (so : Retouched raw text) :
      Retouched raw (text ++ ' ' :: '/' :: '/' :: note)

/-- Physical lines after changes that say nothing, with more lines that say nothing between them. -/
inductive Relaid : List Chars → List Chars → Prop
  | nil : Relaid [] []
  | keep {raw other : Chars} (touched : Retouched raw other) {raws others : List Chars}
      (relaid : Relaid raws others) : Relaid (raw :: raws) (other :: others)
  | insert {extra : Chars} (idle : Idle extra) {raws others : List Chars} (relaid : Relaid raws others) :
      Relaid raws (extra :: others)

section Breaks

private theorem unifyBreaks_append {first second : Chars}
    (apart : first.getLast? = some '\r' → second.head? ≠ some '\n') :
    unifyBreaks (first ++ second) = unifyBreaks first ++ unifyBreaks second := by
  induction first using unifyBreaks.induct with
  | case1 => rfl
  | case2 rest ih =>
    rw [List.cons_append,List.cons_append,unifyBreaks,unifyBreaks,ih]
    · rfl
    · intro last
      apply apart
      rw [List.getLast?_cons,List.getLast?_cons,last]
      rfl
  | case3 c rest alone ih =>
    have alone' : ∀ more, c = '\r' → rest ++ second = '\n' :: more → False := by
      intro more carriage begins
      cases rest with
      | nil =>
        rw [List.nil_append] at begins
        apply apart
        · rw [carriage]
          rfl
        · rw [begins]
          rfl
      | cons d rest =>
        rw [List.cons_append,List.cons.injEq] at begins
        exact alone rest carriage (by rw [begins.1])
    rw [List.cons_append,unifyBreaks.eq_3 _ _ alone',unifyBreaks.eq_3 _ _ alone,ih]
    · rfl
    · intro last
      apply apart
      rw [List.getLast?_cons,last]
      rfl

private theorem unifyBreaks_feed (text : Chars) : unifyBreaks ('\n' :: text) = '\n' :: unifyBreaks text := by
  rw [unifyBreaks.eq_3 _ _ fun _ same => absurd same (by decide)]
  rfl

private theorem lines_of_unified {source first second : Chars}
    (unified : unifyBreaks source = unifyBreaks first ++ '\n' :: unifyBreaks second) :
    lines source = lines first ++ lines second := by
  rw [lines,unified,splitOn_separated,List.map_append,List.filter_append]
  rfl

private theorem lines_both (first second : Chars) :
    lines (first ++ '\r' :: '\n' :: second) = lines first ++ lines second := by
  apply lines_of_unified
  rw [unifyBreaks_append fun _ => by simp,unifyBreaks]

private theorem lines_carriage (first second : Chars) :
    lines (first ++ '\r' :: second) = lines first ++ lines second := by
  by_cases begins : second.head? = some '\n'
  · -- the carriage return and the line feed behind it are one line break
    obtain ⟨rest, rfl⟩ := List.head?_eq_some_iff.mp begins
    have leading : lines ('\n' :: rest) = lines [] ++ lines rest := lines_of_unified (unifyBreaks_feed rest)
    rw [lines_both,leading]
    rfl
  · apply lines_of_unified
    rw [unifyBreaks_append fun _ => by simp,unifyBreaks.eq_3 _ _ fun _ _ same => begins (by rw [same]; rfl)]
    rfl

private theorem lines_feed (first second : Chars) :
    lines (first ++ '\n' :: second) = lines first ++ lines second := by
  by_cases ends : first.getLast? = some '\r'
  · -- so are the carriage return at the end of the first text and the line feed
    obtain ⟨front, rfl⟩ := List.getLast?_eq_some_iff.mp ends
    have trailing : lines (front ++ ['\r']) = lines front ++ lines [] := lines_carriage front []
    rw [List.append_assoc,List.singleton_append,lines_both,trailing,List.append_assoc]
    rfl
  · apply lines_of_unified
    rw [unifyBreaks_append fun same => absurd same ends,unifyBreaks_feed]

private theorem lines_broken (first second : Chars) (lineBreak : LineBreak) :
    lines (first ++ (lineBreak.text ++ second)) = lines first ++ lines second := by
  cases lineBreak with
  | feed => exact lines_feed first second
  | carriage => exact lines_carriage first second
  | both => exact lines_both first second

private theorem Laid.lines_eq {raws : List Chars} {source : Chars} (laid : Laid raws source) :
    lines source = raws.flatMap lines := by
  induction laid with
  | last raw => simp
  | cons raw lineBreak laid ih => rw [lines_broken,ih,List.flatMap_cons]

private theorem Laid.begin {raws : List Chars} {source : Chars} (laid : Laid raws source) {c : Char}
    (plain : c ≠ '\n' ∧ c ≠ '\r') (oneLine : ∀ raw ∈ raws, OneLine raw) :
    ∃ others, (∀ raw ∈ others, OneLine raw) ∧ Laid others (c :: source) := by
  have longer {raw : Chars} (oneLine : OneLine raw) : OneLine (c :: raw) := by
    intro d member
    rcases List.mem_cons.mp member with rfl | member
    · exact plain
    · exact oneLine d member
  cases laid with
  | last =>
    refine ⟨[c :: source], ?_, .last _⟩
    intro raw member
    rw [List.mem_singleton.mp member]
    exact longer (oneLine source List.mem_cons_self)
  | cons raw lineBreak laid =>
    obtain ⟨first, later⟩ := List.forall_mem_cons.mp oneLine
    exact ⟨_, List.forall_mem_cons.mpr ⟨longer first, later⟩, .cons (c :: raw) lineBreak laid⟩

private theorem exists_laid (source : Chars) : ∃ raws, (∀ raw ∈ raws, OneLine raw) ∧ Laid raws source := by
  have empty : OneLine [] := by simp [OneLine]
  induction source using unifyBreaks.induct with
  | case1 => exact ⟨[[]], by simpa using empty, .last []⟩
  | case2 rest ih =>
    obtain ⟨raws, oneLine, laid⟩ := ih
    exact ⟨[] :: raws, List.forall_mem_cons.mpr ⟨empty, oneLine⟩, .cons [] .both laid⟩
  | case3 c rest _ ih =>
    obtain ⟨raws, oneLine, laid⟩ := ih
    by_cases feed : c = '\n'
    · subst feed
      exact ⟨[] :: raws, List.forall_mem_cons.mpr ⟨empty, oneLine⟩, .cons [] .feed laid⟩
    · by_cases carriage : c = '\r'
      · subst carriage
        exact ⟨[] :: raws, List.forall_mem_cons.mpr ⟨empty, oneLine⟩, .cons [] .carriage laid⟩
      · exact laid.begin ⟨feed, carriage⟩ oneLine

end Breaks

section Layout

private theorem stripComment_eq_upToComment (raw : Chars) : stripComment raw = ({} : Scan).upToComment raw := by
  rw [Scan.upToComment_eq,stripComment]
  change _ = ((spots raw).find? fun spot => spot.char = '/' && spot.rest.head? = some '/').elim raw _
  split
  · rename_i spot found
    rw [found]
    rfl
  · rename_i absent
    rw [absent]
    rfl

private theorem OneLine.append {first second : Chars} : OneLine (first ++ second) ↔ OneLine first ∧ OneLine second := by
  simp only [OneLine,List.mem_append]
  constructor
  · exact fun whole => ⟨fun c member => whole c (.inl member), fun c member => whole c (.inr member)⟩
  · rintro ⟨one, two⟩ c (member | member)
    · exact one c member
    · exact two c member

private theorem OneLine.note {note : Chars} (oneLine : OneLine note) : OneLine ('/' :: '/' :: note) :=
  (@OneLine.append ['/', '/'] note).mpr ⟨by simp [OneLine], oneLine⟩

private theorem safe_of_blank {pad : Chars} (blank : pad.all isBlank = true) (oneLine : OneLine pad) :
    pad.all isSafe = true := by
  rw [List.all_eq_true] at blank ⊢
  exact fun c member => isSafe_of_isBlank (blank c member) (oneLine c member)

private theorem stripComment_indented {pad : Chars} (blank : pad.all isBlank = true) (oneLine : OneLine pad)
    (text : Chars) :
    stripComment (pad ++ text) = pad ++ stripComment text := by
  have safe := safe_of_blank blank oneLine
  have slashless : '/' ∉ pad := fun member => absurd (List.all_eq_true.mp safe '/' member) (by decide)
  have like : (({} : Scan).after pad).Like {} :=
    ⟨Scan.span_after_unquote rfl (isUnquote_of_safe safe), escaped_of_safe safe rfl⟩
  rw [stripComment_eq_upToComment,stripComment_eq_upToComment,Scan.upToComment_append _ slashless,
    like.upToComment]

private theorem trim_indented {pad : Chars} (blank : pad.all isBlank = true) (text : Chars) :
    trim (pad ++ text) = trim text := by
  rw [trim,trimStart_blanks blank,trim]

private theorem lines_oneLine {raw : Chars} (oneLine : OneLine raw) :
    lines raw = [trim (stripComment raw)].filter (· ≠ []) := by
  have carriageless : '\r' ∉ raw := fun member => (oneLine _ member).2 rfl
  have feedless : '\n' ∉ raw := fun member => (oneLine _ member).1 rfl
  rw [lines,unifyBreaks_eq carriageless,splitOn_piece feedless]
  rfl

private theorem Idle.lines_eq {extra : Chars} (idle : Idle extra) : lines extra = [] := by
  cases idle with
  | blank blank oneLine =>
    have indented := stripComment_indented blank oneLine []
    rw [List.append_nil] at indented
    rw [lines_oneLine oneLine,indented,trim_indented blank]
    rfl
  | comment blank oneLine within =>
    rw [lines_oneLine (OneLine.append.mpr ⟨oneLine, within.note⟩),stripComment_indented blank oneLine,
      trim_indented blank,stripComment_eq_upToComment]
    rfl

private theorem Retouched.says {raw other : Chars} (touched : Retouched raw other) (oneLine : OneLine raw) :
    OneLine other ∧ trim (stripComment other) = trim (stripComment raw) := by
  induction touched with
  | same => exact ⟨oneLine, rfl⟩
  | @indented before text after old new fits _ ih =>
    obtain ⟨whole, same⟩ := ih
    obtain ⟨fitted, within⟩ := OneLine.append.mp whole
    refine ⟨OneLine.append.mpr ⟨fits, within⟩, ?_⟩
    rw [← same,stripComment_indented new fits,trim_indented new,stripComment_indented old fitted,trim_indented old]
  | @annotated text note closed fits _ ih =>
    obtain ⟨whole, same⟩ := ih
    refine ⟨OneLine.append.mpr ⟨whole, (@OneLine.append [' '] _).mpr ⟨by simp [OneLine], fits.note⟩⟩, ?_⟩
    rw [Closed,stripComment_eq_upToComment] at closed
    obtain ⟨pad, blank, eq⟩ := Scan.upToComment_annotated closed note
    rw [← same,stripComment_eq_upToComment,eq,trim_blanks blank,stripComment_eq_upToComment]

private theorem Relaid.lines_eq {raws others : List Chars} (relaid : Relaid raws others)
    (oneLine : ∀ raw ∈ raws, OneLine raw) : others.flatMap lines = raws.flatMap lines := by
  induction relaid with
  | nil => rfl
  | keep touched relaid ih =>
    obtain ⟨first, later⟩ := List.forall_mem_cons.mp oneLine
    obtain ⟨fits, same⟩ := touched.says first
    rw [List.flatMap_cons,List.flatMap_cons,ih later,lines_oneLine fits,lines_oneLine first,same]
  | insert idle relaid ih => rw [List.flatMap_cons,idle.lines_eq,List.nil_append,ih oneLine]

end Layout

/-- A line break between two texts separates their lines, also if the first one ends or the second one begins with
a part of a line break. Every source consists of physical lines with line breaks between them; it has the same lines
with other line breaks, with more physical lines that are blank or hold a comment only, with other indentations,
and with comments, whatever they contain, behind physical lines whose quotes are closed. -/
theorem layout_says_nothing :
    (∀ (first second : Chars) (lineBreak : LineBreak),
      lines (first ++ (lineBreak.text ++ second)) = lines first ++ lines second) ∧
    (∀ source, ∃ raws, (∀ raw ∈ raws, OneLine raw) ∧ Laid raws source) ∧
    ∀ (raws others : List Chars) (source other : Chars), (∀ raw ∈ raws, OneLine raw) → Relaid raws others →
      Laid raws source → Laid others other → lines other = lines source := by
  refine ⟨lines_broken, exists_laid, ?_⟩
  intro raws others source other oneLine relaid laid laid'
  rw [laid'.lines_eq,laid.lines_eq,relaid.lines_eq oneLine]

private theorem closed_of_whole {raw : Chars} (closed : (({} : Scan).after raw).span = .code) : Closed raw := by
  rw [Closed,stripComment]
  split
  · rename_i spot found
    obtain ⟨before, eq, index, sees⟩ := Scan.split_of_mem (List.mem_of_find?_eq_some found)
    have cut : raw.take spot.index = before := by
      rw [index,eq]
      simp
    rw [cut]
    simp only [Scan.sees,Bool.and_eq_true,decide_eq_true_eq] at sees
    exact sees.1
  · exact closed

/-- Two physical lines, the first one with a quote in its comment, and the same lines with another indentation, more
comments with quotes in them, a comment on a line of its own, and other line breaks. -/
theorem layout_says_nothing_quotes :
    let raws := ["x = 1 // a's".toList, "  andika('//')".toList]
    let others := ["\tx = 1 // a's // \"b".toList, " // it's".toList, "andika('//') // don't".toList]
    let source := "x = 1 // a's\r\n  andika('//')".toList
    let other := "\tx = 1 // a's // \"b\r // it's\nandika('//') // don't".toList
    (∀ raw ∈ raws, OneLine raw) ∧ Relaid raws others ∧ Laid raws source ∧ Laid others other ∧
      lines other = lines source ∧ lines source = ["x = 1".toList, "andika('//')".toList] ∧
      lines (source ++ (['\r'] ++ '\n' :: other)) = lines source ++ lines ('\n' :: other) := by
  intro raws others source other
  have oneLine : ∀ raw ∈ raws, OneLine raw := forall_of_all (by decide)
  have relaid : Relaid raws others := by
    have noted : Retouched "x = 1 // a's".toList "x = 1 // a's // \"b".toList :=
      @Retouched.annotated _ "x = 1 // a's".toList " \"b".toList (by decide) (by decide) .same
    have bare : Retouched "  andika('//')".toList "andika('//')".toList :=
      @Retouched.indented _ [' ', ' '] "andika('//')".toList [] (by decide) (by decide) (by decide) .same
    exact .keep (@Retouched.indented _ [] _ ['\t'] (by decide) (by decide) (by decide) noted)
      (.insert (@Idle.comment [' '] (by decide) (by decide) " it's".toList (by decide))
        (.keep (@Retouched.annotated _ _ " don't".toList (closed_of_whole (by decide)) (by decide) bare) .nil))
  have laid : Laid raws source := .cons _ .both (.last _)
  have laid' : Laid others other := .cons _ .carriage (.cons _ .feed (.last _))
  obtain ⟨separates, -, keeps⟩ := layout_says_nothing
  exact ⟨oneLine, relaid, laid, laid', keeps raws others source other oneLine relaid laid laid', by decide +kernel,
    separates source ('\n' :: other) .carriage⟩

private theorem slashes_apart {text : Line} (uncommented : Uncommented text) {index : Nat}
    (slash : (index, '/') ∈ codeChars text) : (index + 1, '/') ∉ codeChars text := by
  intro next
  obtain ⟨spot, member, same⟩ := List.mem_map.mp slash
  obtain ⟨other, member', same'⟩ := List.mem_map.mp next
  rw [Prod.mk.injEq] at same same'
  obtain ⟨before, eq, at_, -⟩ := Scan.split_of_mem member
  obtain ⟨before', eq', at', -⟩ := Scan.split_of_mem member'
  have start : ({} : Scan).index = 0 := rfl
  refine uncommented spot member same.2 ?_
  have here : text[index + 1]? = spot.rest.head? := by
    rw [eq,List.getElem?_append_right (by omega),show index + 1 - before.length = 1 by omega,
      List.getElem?_cons_succ,List.head?_eq_getElem?]
  have there : text[index + 1]? = some other.char := by
    rw [eq',List.getElem?_append_right (by omega),show index + 1 - before'.length = 0 by omega,
      List.getElem?_cons_zero]
  rw [← here,there,same'.2]

/-- The lines of a source, joined with line feeds, are a source with the same lines, however its quotes stand. Each
of them has a character, but no blanks at its ends, no line breaks, and no two slashes in a row outside quotes. -/
theorem lines_of_joined_lines (source : Chars) :
    lines (joinLines (lines source)) = lines source ∧
      ∀ line ∈ lines source, line ≠ [] ∧ trim line = line ∧ OneLine line ∧
        ∀ index, (index, '/') ∈ codeChars line → (index + 1, '/') ∉ codeChars line := by
  refine ⟨lines_joinSettled fun line => settled_lines, fun line member => ?_⟩
  have settled := settled_lines member
  exact ⟨settled.nonempty, settled.trimmed.trim_eq, settled.oneLine, fun index => slashes_apart settled.uncommented⟩

/-- A comment behind a text with slashes and an escaped quote in it, and a quote that is not closed. -/
theorem lines_of_joined_lines_open_quote :
    let source := "let x = 'it\\'s // one' // two\r\n\t\r// three\n  andika(\"open // 'four' ".toList
    let closed := "let x = 'it\\'s // one'".toList
    let opened := "andika(\"open // 'four'".toList
    lines source = [closed, opened] ∧ lines (joinLines [closed, opened]) = [closed, opened] ∧
      trim opened = opened ∧ OneLine opened ∧
      ∀ index, (index, '/') ∈ codeChars opened → (index + 1, '/') ∉ codeChars opened := by
  intro source closed opened
  have read : lines source = [closed, opened] := by decide +kernel
  obtain ⟨again, each⟩ := lines_of_joined_lines source
  rw [read] at again each
  exact ⟨read, again, (each opened (by simp)).2⟩

end Source

end Inyandiko
