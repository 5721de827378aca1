import Inyandiko.Json.Reader
import Inyandiko.Json.Writer
import Inyandiko.Proofs.Trim

/-! Texts in documents. A text is read back from its written form, whatever its characters are: the escapes of
sixteen bits are four digits each, and a character beyond them is written as two that are read as one. -/
namespace Inyandiko.Json

open Text

private theorem hexValue?_digitChar {digit : Nat} (small : digit < 16) : hexValue? digit.digitChar = some digit := by
  have all : ∀ digit ∈ List.range 16, hexValue? digit.digitChar = some digit := forall_of_all (by decide)
  exact all digit (List.mem_range.mpr small)

private theorem hex_one {n : Nat} (small : n < 16) : hex 1 n = [n.digitChar] := by
  rw [hex,Nat.toDigits_of_lt_base small]
  rfl

private theorem hex_succ (width n : Nat) : hex (width + 2) n = hex (width + 1) (n / 16) ++ [(n % 16).digitChar] := by
  rcases Nat.lt_or_ge n 16 with small | large
  · have zero : n / 16 = 0 := by omega
    rw [hex,hex,Nat.toDigits_of_lt_base small,zero,Nat.toDigits_zero,Nat.mod_eq_of_lt small]
    simp [List.replicate_succ']
  · rw [hex,hex,Nat.toDigits_of_base_le (by decide) large]
    simp

/-- Four digits spell a unit. -/
theorem hex_four {n : Nat} (small : n < 0x10000) :
    hex 4 n = [(n / 4096).digitChar, (n / 256 % 16).digitChar, (n / 16 % 16).digitChar, (n % 16).digitChar] := by
  have first : n / 16 / 16 / 16 = n / 4096 := by omega
  have second : n / 16 / 16 % 16 = n / 256 % 16 := by omega
  rw [hex_succ,hex_succ,hex_succ,hex_one (by omega),first,second]
  rfl

private theorem unit?_hex {n : Nat} (small : n < 0x10000) : unit? (hex 4 n) = some n := by
  rw [hex_four small]
  simp only [unit?,hexValue?_digitChar (by omega : n / 4096 < 16),hexValue?_digitChar (Nat.mod_lt _ (by decide)),
    bind,Option.bind,pure]
  congr 1
  omega

private theorem length_hex {n : Nat} (small : n < 0x10000) : (hex 4 n).length = 4 := by
  rw [hex_four small]
  rfl

section Units

variable {index unit : Nat} {rest : Chars}

private theorem take_hex (small : unit < 0x10000) (rest : Chars) : (hex 4 unit ++ rest).take 4 = hex 4 unit :=
  List.take_left' (length_hex small)

private theorem drop_hex (small : unit < 0x10000) (rest : Chars) : (hex 4 unit ++ rest).drop 4 = rest :=
  List.drop_left' (length_hex small)

private theorem readUnit_hex (some_ : rest ≠ []) (small : unit < 0x10000) (whole : unit < 0xd800 ∨ 0xdfff < unit) :
    readUnit index (hex 4 unit ++ rest) = .ok (Char.ofNat unit, 4) := by
  have more : rest.isEmpty = false := List.isEmpty_eq_false_iff.mpr some_
  have high : ¬(0xd800 ≤ unit ∧ unit ≤ 0xdbff) := by omega
  have low : ¬(0xdc00 ≤ unit ∧ unit ≤ 0xdfff) := by omega
  simp [readUnit,drop_hex small,take_hex small,unit?_hex small,more,high,low]

private theorem followingUnit?_unitEscape (some_ : rest ≠ []) (small : unit < 0x10000) :
    followingUnit? (unitEscape unit ++ rest) = some (.ok unit) := by
  have more : rest.isEmpty = false := List.isEmpty_eq_false_iff.mpr some_
  simp [followingUnit?,unitEscape,drop_hex small,take_hex small,unit?_hex small,more]

private theorem readUnit_pair (some_ : rest ≠ []) {offset : Nat} (small : offset < 0x100000) :
    readUnit index (hex 4 (0xd800 + offset / 0x400) ++ (unitEscape (0xdc00 + offset % 0x400) ++ rest)) =
      .ok (Char.ofNat (0x10000 + offset), 10) := by
  have first : 0xd800 + offset / 0x400 < 0x10000 := by omega
  have second : 0xdc00 + offset % 0x400 < 0x10000 := by omega
  have high : 0xd800 + offset / 0x400 ≤ 0xdbff := by omega
  have low : 0xdc00 + offset % 0x400 ≤ 0xdfff := by omega
  have back : 0x10000 + offset / 0x400 * 0x400 + offset % 0x400 = 0x10000 + offset := by omega
  have more : (unitEscape (0xdc00 + offset % 0x400) ++ rest).isEmpty = false := rfl
  simp [readUnit,drop_hex first,take_hex first,unit?_hex first,more,followingUnit?_unitEscape some_ second,
    high,low,back]

end Units

section Reading

variable {start index : Nat} {rest more : Chars} {after : Cursor}

private theorem readText_unit {c : Char} {used : Nat} (read : readUnit (index + 1) rest = .ok (c, used))
    (later : readText start (index + 2 + used) (rest.drop used) = .ok (more, after)) :
    readText start index ('\\' :: 'u' :: rest) = .ok (c :: more, after) := by
  rw [readText]
  simp only [read,later]
  rfl

private theorem readText_letter {letter c : Char} (stands : escaped? letter = some c)
    (later : readText start (index + 2) rest = .ok (more, after)) :
    readText start index ('\\' :: letter :: rest) = .ok (c :: more, after) := by
  have other : letter ≠ 'u' := by
    rintro rfl
    cases stands
  rw [readText.eq_def]
  simp [stands,later,bind,Except.bind,pure,Except.pure]

private theorem readText_plain {c : Char} (quote : c ≠ '"') (backslash : c ≠ '\\') (printable : ¬c.toNat < 0x20)
    (later : readText start (index + 1) rest = .ok (more, after)) :
    readText start index (c :: rest) = .ok (c :: more, after) := by
  rw [readText.eq_def]
  simp [backslash,printable,later,bind,Except.bind,pure,Except.pure]

end Reading

/-- The written forms of a character: a letter behind a backslash, the character itself, or one or two units. -/
inductive Written (c : Char) : Chars → Prop
  | letter {letter : Char} (stands : escaped? letter = some c) : Written c ['\\', letter]
  | plain (quote : c ≠ '"') (backslash : c ≠ '\\') (low : ' ' ≤ c) (high : c ≤ '~') : Written c [c]
  | unit (backslash : c ≠ '\\') (small : c.toNat < 0x10000) : Written c (unitEscape c.toNat)
  | pair {offset : Nat} (beyond : c.toNat = 0x10000 + offset) :
    Written c (unitEscape (0xd800 + offset / 0x400) ++ unitEscape (0xdc00 + offset % 0x400))

theorem written_escapeChar (c : Char) : Written c (escapeChar c) := by
  by_cases quote : c = '"'
  · subst quote
    exact .letter rfl
  by_cases backslash : c = '\\'
  · subst backslash
    exact .letter rfl
  rw [escapeChar,if_neg quote,if_neg backslash]
  -- the five control characters that have a letter, then the ranges
  iterate 5
    split
    · rename_i same
      subst same
      exact .letter rfl
  split
  · rename_i printable
    simp only [Bool.and_eq_true,decide_eq_true_eq] at printable
    exact .plain quote backslash printable.1 printable.2
  split
  · rename_i small
    exact .unit backslash small
  · rename_i large
    exact .pair (by omega)

section Reading

variable {start index : Nat} {rest more : Chars} {after : Cursor}

theorem toNat_whole (c : Char) : c.toNat < 0xd800 ∨ 0xdfff < c.toNat ∧ c.toNat < 0x110000 := c.valid

private theorem readText_written {c : Char} {text : Chars} (written : Written c text) (some_ : rest ≠ [])
    (later : readText start (index + text.length) rest = .ok (more, after)) :
    readText start index (text ++ rest) = .ok (c :: more, after) := by
  have valid := toNat_whole c
  cases written with
  | letter stands => exact readText_letter stands later
  | plain quote backslash low high =>
    have printable : ¬c.toNat < 0x20 := Nat.not_lt.mpr low
    exact readText_plain quote backslash printable later
  | unit _ small =>
    have read : readUnit (index + 1) (hex 4 c.toNat ++ rest) = .ok (Char.ofNat c.toNat, 4) :=
      readUnit_hex some_ small (by omega)
    rw [Char.ofNat_toNat] at read
    rw [unitEscape,List.cons_append,List.cons_append]
    refine readText_unit read ?_
    rw [drop_hex small]
    simpa [unitEscape,length_hex small,Nat.add_assoc] using later
  | @pair offset beyond =>
    have first : 0xd800 + offset / 0x400 < 0x10000 := by omega
    have second : 0xdc00 + offset % 0x400 < 0x10000 := by omega
    have read : readUnit (index + 1)
        (hex 4 (0xd800 + offset / 0x400) ++ (unitEscape (0xdc00 + offset % 0x400) ++ rest)) =
          .ok (Char.ofNat (0x10000 + offset), 10) := readUnit_pair some_ (by omega)
    have left : (hex 4 (0xd800 + offset / 0x400) ++ (unitEscape (0xdc00 + offset % 0x400) ++ rest)).drop 10 =
        rest := by
      rw [← List.append_assoc]
      exact List.drop_left' (by simp [unitEscape,length_hex first,length_hex second])
    rw [← beyond,Char.ofNat_toNat] at read
    rw [List.append_assoc,unitEscape,List.cons_append,List.cons_append]
    refine readText_unit read ?_
    rw [left]
    simpa [unitEscape,length_hex first,length_hex second,Nat.add_assoc] using later

/-- A text is read back from its written form, up to its closing quote. -/
theorem readText_writeText (text : Chars) (index : Nat) :
    readText start index (text.flatMap escapeChar ++ '"' :: rest) =
      .ok (text, ⟨index + (text.flatMap escapeChar).length + 1, rest⟩) := by
  induction text generalizing index with
  | nil =>
    rw [List.flatMap_nil,List.nil_append,readText]
    rfl
  | cons c text ih =>
    have later := ih (index + (escapeChar c).length)
    rw [List.flatMap_cons,List.append_assoc,List.length_append]
    refine readText_written (written_escapeChar c) (by simp) ?_
    rw [later]
    simp only [Nat.add_assoc]

/-- A whole text is read as the document that it is the written form of. -/
theorem read_writeText (depth : Nat) (text : Chars) :
    read depth (writeText text) = .ok (.text (String.ofList text)) := by
  have inner : readText 0 1 (text.flatMap escapeChar ++ ['"']) = .ok (text, _) := readText_writeText text 1
  have begun : Cursor.skip ⟨0, writeText text⟩ = ⟨0, '"' :: (text.flatMap escapeChar ++ ['"'])⟩ := rfl
  rw [read,if_neg (by simp [writeText]),begun]
  simp only [readValue,inner]
  rfl

end Reading

end Inyandiko.Json
