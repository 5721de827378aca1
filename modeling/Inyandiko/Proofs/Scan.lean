import Inyandiko.Block
import Inyandiko.Expression.Operator

/-! Scans of texts in pieces. The spots of two texts in a row are those of the first and those that
a scan meets after it. A text is steady when its quotes are closed and its brackets are nested
outside them; a steady piece does not disturb what is counted around it. -/
namespace Inyandiko.Text

/-- A spot with more text after it. -/
def Spot.extend (more : Chars) (spot : Spot) : Spot := { spot with rest := spot.rest ++ more }

/-- A spot without what is before it. -/
def Spot.view (spot : Spot) : Char × Chars := (spot.char, spot.rest)

namespace Scan

/-- The scan after a whole text. -/
def after (scan : Scan) (text : Chars) : Scan := text.foldl Scan.next scan

theorem after_nil (scan : Scan) : scan.after [] = scan := rfl

theorem after_cons (scan : Scan) (c : Char) (rest : Chars) :
    scan.after (c :: rest) = (scan.next c).after rest := rfl

theorem after_append (scan : Scan) (first second : Chars) :
    scan.after (first ++ second) = (scan.after first).after second := by
  simp only [after,List.foldl_append]

theorem index_after (scan : Scan) (text : Chars) :
    (scan.after text).index = scan.index + text.length := by
  induction text generalizing scan with
  | nil => rfl
  | cons c rest ih =>
    rw [after_cons,ih,List.length_cons]
    simp only [next]
    omega

theorem spots_append (scan : Scan) (first second : Chars) :
    scan.spots (first ++ second) =
      (scan.spots first).map (Spot.extend second) ++ (scan.after first).spots second := by
  induction first generalizing scan with
  | nil => rfl
  | cons c rest ih =>
    simp only [List.cons_append,spots,after_cons]
    split
    · simp only [ih,List.map_cons,List.cons_append,Spot.extend]
    · exact ih _

/-- Scans that go on in the same way. -/
def Like (one two : Scan) : Prop := one.span = two.span ∧ one.escaped = two.escaped

theorem Like.next {one two : Scan} (like : one.Like two) (c : Char) : (one.next c).Like (two.next c) := by
  simp only [Like,Scan.next,like.1,like.2,and_self]

private theorem Like.after {one two : Scan} (like : one.Like two) (text : Chars) :
    (one.after text).Like (two.after text) := by
  induction text generalizing one two with
  | nil => exact like
  | cons c rest ih => exact ih (like.next c)

private theorem Like.views {one two : Scan} (like : one.Like two) (text : Chars) :
    (one.spots text).map Spot.view = (two.spots text).map Spot.view := by
  induction text generalizing one two with
  | nil => rfl
  | cons c rest ih =>
    have sees : one.sees c = two.sees c := by simp only [sees,like.1,like.2]
    simp only [spots,sees]
    split
    · simp only [List.map_cons,ih (like.next c)]
      rfl
    · exact ih (like.next c)

end Scan

/-- The characters of a text outside quotes. -/
def code (text : Chars) : Chars := (spots text).map Spot.char

/-- Characters that neither open nor close quotes. -/
def isUnquote (c : Char) : Bool := c ≠ '\'' && c ≠ '"'

namespace Scan

theorem sees_unquote {scan : Scan} (inCode : scan.span = .code) {c : Char} (unquote : isUnquote c = true) :
    scan.sees c = true := by
  simp only [isUnquote,Bool.and_eq_true,decide_eq_true_eq] at unquote
  simp [sees,inCode,Span.toggle?,unquote.1,unquote.2]

theorem span_next_unquote {scan : Scan} (inCode : scan.span = .code) {c : Char}
    (unquote : isUnquote c = true) : (scan.next c).span = .code := by
  simp only [isUnquote,Bool.and_eq_true,decide_eq_true_eq] at unquote
  simp [next,inCode,Span.toggle?,unquote.1,unquote.2]

theorem spots_unquote {scan : Scan} (inCode : scan.span = .code) {c : Char}
    (unquote : isUnquote c = true) (rest : Chars) :
    scan.spots (c :: rest) = ⟨scan.index, c, scan.before, rest⟩ :: (scan.next c).spots rest := by
  simp only [spots,sees_unquote inCode unquote,if_true]

theorem span_after_unquote {scan : Scan} (inCode : scan.span = .code) {text : Chars}
    (unquote : text.all isUnquote = true) : (scan.after text).span = .code := by
  induction text generalizing scan with
  | nil => exact inCode
  | cons c rest ih =>
    simp only [List.all_cons,Bool.and_eq_true] at unquote
    exact ih (span_next_unquote inCode unquote.1) unquote.2

theorem chars_unquote {scan : Scan} (inCode : scan.span = .code) {text : Chars}
    (unquote : text.all isUnquote = true) : (scan.spots text).map Spot.char = text := by
  induction text generalizing scan with
  | nil => rfl
  | cons c rest ih =>
    simp only [List.all_cons,Bool.and_eq_true] at unquote
    rw [spots_unquote inCode unquote.1,List.map_cons,ih (span_next_unquote inCode unquote.1) unquote.2]

/-- The scan stands outside quotes, and no backslash is in the way of what a text begins with: it
goes through the text as a new scan does. -/
structure Enters (scan : Scan) (text : Chars) : Prop where
  inCode : scan.span = .code
  unhindered : scan.escaped = true → text.head?.all isUnquote = true

theorem Enters.of_fresh {scan : Scan} (inCode : scan.span = .code) (fresh : scan.escaped = false)
    (text : Chars) : scan.Enters text :=
  ⟨inCode, fun escaped => absurd escaped (by simp [fresh])⟩

private theorem Enters.next_like {scan : Scan} {c : Char} {rest : Chars}
    (enters : scan.Enters (c :: rest)) :
    (scan.next c).Like (({} : Scan).next c) ∧ scan.sees c = ({} : Scan).sees c := by
  cases escaped : scan.escaped with
  | false =>
    have like : scan.Like {} := ⟨enters.inCode, escaped⟩
    exact ⟨like.next c, by simp only [sees,like.1,like.2]⟩
  | true =>
    have unquote : isUnquote c = true := enters.unhindered escaped
    refine ⟨⟨?_, rfl⟩, ?_⟩
    · rw [span_next_unquote enters.inCode unquote,span_next_unquote rfl unquote]
    · rw [sees_unquote enters.inCode unquote,sees_unquote rfl unquote]

theorem Enters.span_after {scan : Scan} {text : Chars} (enters : scan.Enters text) :
    (scan.after text).span = (({} : Scan).after text).span := by
  cases text with
  | nil => exact enters.inCode
  | cons c rest => exact (enters.next_like.1.after rest).1

theorem Enters.views {scan : Scan} {text : Chars} (enters : scan.Enters text) :
    (scan.spots text).map Spot.view = (Text.spots text).map Spot.view := by
  cases text with
  | nil => rfl
  | cons c rest =>
    obtain ⟨like, sees⟩ := enters.next_like
    simp only [Text.spots,spots,sees]
    split
    · simp only [List.map_cons,like.views rest]
      rfl
    · exact like.views rest

theorem Enters.chars {scan : Scan} {text : Chars} (enters : scan.Enters text) :
    (scan.spots text).map Spot.char = code text := by
  have same := congrArg (List.map Prod.fst) enters.views
  rw [List.map_map,List.map_map] at same
  exact same

theorem index_bounds {scan : Scan} {text : Chars} {spot : Spot} (member : spot ∈ scan.spots text) :
    scan.index ≤ spot.index ∧ spot.index < scan.index + text.length := by
  induction text generalizing scan with
  | nil => cases member
  | cons c rest ih =>
    have later (member : spot ∈ (scan.next c).spots rest) :
        scan.index ≤ spot.index ∧ spot.index < scan.index + (c :: rest).length := by
      obtain ⟨low, high⟩ := ih member
      simp only [Scan.next] at low high
      rw [List.length_cons]
      omega
    rw [Scan.spots] at member
    split at member
    · rcases List.mem_cons.mp member with rfl | member
      · rw [List.length_cons]
        dsimp only
        omega
      · exact later member
    · exact later member

/-- A spot stands behind a text that brings the scan to it. -/
theorem split_of_mem {scan : Scan} {text : Chars} {spot : Spot} (member : spot ∈ scan.spots text) :
    ∃ before, text = before ++ spot.char :: spot.rest ∧ spot.index = scan.index + before.length ∧
      (scan.after before).sees spot.char = true := by
  induction text generalizing scan with
  | nil => cases member
  | cons c rest ih =>
    have later (member : spot ∈ (scan.next c).spots rest) :
        ∃ before, c :: rest = before ++ spot.char :: spot.rest ∧ spot.index = scan.index + before.length ∧
          (scan.after before).sees spot.char = true := by
      obtain ⟨before, eq, index, sees⟩ := ih member
      refine ⟨c :: before, by rw [List.cons_append,← eq], ?_, sees⟩
      rw [index,List.length_cons]
      simp only [next]
      omega
    rw [Scan.spots] at member
    split at member
    · rename_i seen
      rcases List.mem_cons.mp member with rfl | member
      · exact ⟨[], rfl, rfl, seen⟩
      · exact later member
    · exact later member

end Scan

theorem code_append {first second : Chars} (enters : (({} : Scan).after first).Enters second) :
    code (first ++ second) = code first ++ code second := by
  rw [code,spots,Scan.spots_append,List.map_append,List.map_map,enters.chars]
  rfl

end Inyandiko.Text
