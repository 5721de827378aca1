import Inyandiko.Proofs.Expression.Simple
import Inyandiko.Proofs.JsonText

/-! Documents that are read back from their written form: those of truth values, integers, texts, arrays and objects,
nested to any depth. A written document is followed by nothing, a comma or a closing bracket, so its end is found. -/
namespace Inyandiko.Json

open Text

section Integers

private theorem decimalValue?_digitChar {digit : Nat} (small : digit < 10) :
    decimalValue? digit.digitChar = some digit := by
  have all : ∀ digit ∈ List.range 10, decimalValue? digit.digitChar = some digit := forall_of_all (by decide)
  exact all digit (List.mem_range.mpr small)

private theorem digitsValue_concat (digits : List Nat) (digit : Nat) :
    digitsValue (digits ++ [digit]) = 10 * digitsValue digits + digit := by
  rw [digitsValue,List.foldl_append]
  rfl

private theorem toDigits_spec (n : Nat) : (Nat.toDigits 10 n).all isDecimal = true ∧
    digitsValue ((Nat.toDigits 10 n).filterMap decimalValue?) = n := by
  induction n using Nat.strongRecOn with
  | ind n ih =>
    rcases Nat.lt_or_ge n 10 with small | large
    · have value := decimalValue?_digitChar small
      rw [Nat.toDigits_of_lt_base small]
      simp [isDecimal,value,digitsValue]
    · obtain ⟨decimal, front⟩ := ih (n / 10) (by omega)
      have value := decimalValue?_digitChar (Nat.mod_lt n (by decide : 0 < 10))
      rw [Nat.toDigits_of_base_le (by decide) large,List.all_append,decimal,List.filterMap_append]
      simp only [List.all_cons,List.all_nil,isDecimal,value,List.filterMap_cons,List.filterMap_nil,digitsValue_concat,
        front]
      exact ⟨rfl, by omega⟩

/-- The digits of a number that is not too long. -/
def digitsOf (n : Nat) (short : (Nat.toDigits 10 n).length ≤ digitLimit) : IntegerLiteral :=
  ⟨Nat.toDigits 10 n, Nat.toDigits_ne_nil, (toDigits_spec n).1, short⟩

private theorem value_digitsOf {n : Nat} (short : (Nat.toDigits 10 n).length ≤ digitLimit) :
    (digitsOf n short).value = n :=
  congrArg Int.ofNat (toDigits_spec n).2

private theorem readInt_writeInt {n : Int} (short : (Nat.toDigits 10 n.natAbs).length ≤ digitLimit) :
    Numeral.readInt (String.ofList (writeInt n)) = .ok n := by
  have value := value_digitsOf short
  rw [writeInt]
  split
  · have negative : -(n.natAbs : Int) = n := by omega
    have read := (digitsOf n.natAbs short).readInt_minus
    rwa [value,negative] at read
  · have positive : (n.natAbs : Int) = n := by omega
    have read := (digitsOf n.natAbs short).readInt_digits
    rwa [value,positive] at read

private theorem isPlainDigit_of_mem {n : Nat} {c : Char} (member : c ∈ Nat.toDigits 10 n) : isPlainDigit c = true := by
  have digit := Nat.isDigit_of_mem_toDigits (by decide) (Nat.le_refl 10) member
  simp only [Char.isDigit,Bool.and_eq_true,decide_eq_true_eq] at digit
  simp only [isPlainDigit,Bool.and_eq_true,decide_eq_true_eq]
  exact digit

private theorem ne_of_isPlainDigit {c other : Char} (digit : isPlainDigit c = true)
    (mark : isPlainDigit other = false) :
    c ≠ other := by
  rintro rfl
  rw [mark] at digit
  cases digit

private theorem toDigits_cons (n : Nat) : ∃ c tail, Nat.toDigits 10 n = c :: tail ∧ (0 < n → c ≠ '0') := by
  induction n using Nat.strongRecOn with
  | ind n ih =>
    rcases Nat.lt_or_ge n 10 with small | large
    · have all : ∀ digit ∈ List.range 10, 0 < digit → digit.digitChar ≠ '0' := forall_of_all (by decide)
      exact ⟨_, [], Nat.toDigits_of_lt_base small, all n (List.mem_range.mpr small)⟩
    · obtain ⟨c, tail, eq, other⟩ := ih (n / 10) (by omega)
      refine ⟨c, tail ++ [(n % 10).digitChar], ?_, fun _ => other (by omega)⟩
      rw [Nat.toDigits_of_base_le (by decide) large,eq]
      rfl

end Integers

/-- What may stand behind a document. -/
inductive Delimited : Chars → Prop
  | nil : Delimited []
  | comma (rest : Chars) : Delimited (',' :: rest)
  | bracket (rest : Chars) : Delimited (']' :: rest)
  | brace (rest : Chars) : Delimited ('}' :: rest)

private theorem Delimited.stops {rest : Chars} (delimited : Delimited rest) :
    rest.head?.any isPlainDigit = false ∧ numeralTail rest = [] := by
  cases delimited <;> exact ⟨rfl, rfl⟩

section Numerals

variable {rest : Chars} (delimited : Delimited rest)
include delimited

private theorem numeral?_digits {text minus : Chars} {n : Nat} (signed : (text.takeWhile (· = '-')).take 1 = minus)
    (body : text.drop minus.length = Nat.toDigits 10 n ++ rest) :
    numeral? text = some (minus ++ Nat.toDigits 10 n, []) := by
  obtain ⟨stops, tail⟩ := delimited.stops
  have digits : (Nat.toDigits 10 n).all isPlainDigit = true :=
    List.all_eq_true.mpr fun c member => isPlainDigit_of_mem member
  have taken := (span_append digits stops).1
  have left : numeralTail ((Nat.toDigits 10 n ++ rest).drop (Nat.toDigits 10 n).length) = [] := by
    rw [List.drop_left,tail]
  simp only [numeral?,signed,body]
  rcases Nat.eq_zero_or_pos n with rfl | positive
  · exact congrArg (fun tail => some (minus ++ ['0'], tail)) tail
  · obtain ⟨c, front, eq, other⟩ := toDigits_cons n
    rw [eq,List.cons_append] at taken left ⊢
    split
    · rename_i same
      exact absurd (List.cons.inj same).1 (other positive)
    · simp only [taken,left,List.isEmpty_cons,Bool.false_eq_true,if_false]

private theorem numeral?_writeInt (n : Int) : numeral? (writeInt n ++ rest) = some (writeInt n, []) := by
  rw [writeInt]
  split
  · exact @numeral?_digits rest delimited _ ['-'] _ (by simp) rfl
  · refine @numeral?_digits rest delimited _ [] _ ?_ rfl
    obtain ⟨c, tail, eq, -⟩ := toDigits_cons n.natAbs
    have digit : isPlainDigit c = true := isPlainDigit_of_mem (eq ▸ List.mem_cons_self)
    simp [eq,ne_of_isPlainDigit digit (by decide : isPlainDigit '-' = false)]

private theorem readNumber_writeInt {n : Int} (short : (Nat.toDigits 10 n.natAbs).length ≤ digitLimit) (index : Nat) :
    readNumber ⟨index, writeInt n ++ rest⟩ = .ok (.int n, ⟨index + (writeInt n).length, rest⟩) := by
  simp only [readNumber,numeral?_writeInt delimited,List.isEmpty_nil,if_true,readInt_writeInt short]
  simp [Cursor.drop]

end Numerals

/-- The documents without floating-point numbers in which no integer is too long and no name comes twice. -/
inductive Plain : Json → Prop
  | null : Plain .null
  | bool (value : Bool) : Plain (.bool value)
  | int {n : Int} (short : (Nat.toDigits 10 n.natAbs).length ≤ digitLimit) : Plain (.int n)
  | text (value : String) : Plain (.text value)
  | array {items : List Json} (each : ∀ item ∈ items, Plain item) : Plain (.array items)
  | object {members : List (String × Json)} (distinct : (members.map (·.1)).Nodup)
    (each : ∀ member ∈ members, Plain member.2) : Plain (.object members)

mutual

/-- How deeply arrays and objects are nested. -/
def height : Json → Nat
  | .array items => heightItems items + 1
  | .object members => heightMembers members + 1
  | .null | .bool _ | .int _ | .float _ | .text _ => 0

/-- How deeply the items of an array are nested. -/
def heightItems : List Json → Nat
  | [] => 0
  | item :: items => max item.height (heightItems items)

/-- How deeply the members of an object are nested. -/
def heightMembers : List (String × Json) → Nat
  | [] => 0
  | (_, value) :: members => max value.height (heightMembers members)

end

theorem heightItems_le_iff {items : List Json} {depth : Nat} :
    heightItems items ≤ depth ↔ ∀ item ∈ items, item.height ≤ depth := by
  induction items with
  | nil => simp [heightItems]
  | cons item items ih => rw [heightItems,Nat.max_le,ih,List.forall_mem_cons]

theorem heightMembers_le_iff {members : List (String × Json)} {depth : Nat} :
    heightMembers members ≤ depth ↔ ∀ member ∈ members, member.2.height ≤ depth := by
  induction members with
  | nil => simp [heightMembers]
  | cons member members ih => rw [heightMembers,Nat.max_le,ih,List.forall_mem_cons]

theorem height_lt_array {item : Json} {items : List Json} (member : item ∈ items) :
    item.height < (Json.array items).height := by
  rw [height]
  exact Nat.lt_succ_of_le (heightItems_le_iff.mp (Nat.le_refl _) item member)

theorem height_lt_object {member : String × Json} {members : List (String × Json)} (among : member ∈ members) :
    member.2.height < (Json.object members).height := by
  rw [height]
  exact Nat.lt_succ_of_le (heightMembers_le_iff.mp (Nat.le_refl _) member among)

/-- Whether a document may begin with a character: one that is not skipped, closes nothing and is no mark of the
order of bytes. -/
def isStart (c : Char) : Bool := !isSpace c && c ≠ ']' && c ≠ '}' && c ≠ '\ufeff'

/-- A text that begins as documents do. -/
structure Begins (text : Chars) : Prop where
  shape : ∃ c rest, text = c :: rest ∧ isStart c = true

namespace Begins

variable {text : Chars} (begins : Begins text)
include begins

private theorem cons : ∃ c rest, text = c :: rest ∧ isSpace c = false ∧ c ≠ ']' ∧ c ≠ '}' ∧ c ≠ '\ufeff' := by
  obtain ⟨c, rest, eq, start⟩ := begins.shape
  simp only [isStart,Bool.and_eq_true,Bool.not_eq_true',decide_eq_true_eq,and_assoc] at start
  exact ⟨c, rest, eq, start⟩

private theorem append (rest : Chars) : Begins (text ++ rest) := by
  obtain ⟨c, tail, rfl, start⟩ := begins.shape
  exact ⟨c, tail ++ rest, rfl, start⟩

private theorem skip (index : Nat) : Cursor.skip ⟨index, text⟩ = ⟨index, text⟩ := by
  obtain ⟨c, tail, rfl, solid, -⟩ := begins.cons
  simp [Cursor.skip,solid]

private theorem skip_space (index : Nat) : Cursor.skip ⟨index, ' ' :: text⟩ = ⟨index + 1, text⟩ := by
  obtain ⟨c, tail, rfl, solid, -⟩ := begins.cons
  have space : isSpace ' ' = true := rfl
  simp [Cursor.skip,solid,space]

end Begins

private theorem Cursor.skip_mark {c : Char} (solid : isSpace c = false) (index : Nat) (text : Chars) :
    Cursor.skip ⟨index, c :: text⟩ = ⟨index, c :: text⟩ := by
  simp [skip,solid]

private theorem Cursor.drop_one (c : Char) (index : Nat) (text : Chars) :
    Cursor.drop ⟨index, c :: text⟩ 1 = ⟨index + 1, text⟩ := rfl

private theorem writeText_append (text rest : Chars) :
    writeText text ++ rest = '"' :: (text.flatMap escapeChar ++ '"' :: rest) := by
  simp [writeText]

private theorem readText_name (name : String) (rest : Chars) (start index : Nat) :
    readText start (index + 1) (name.toList.flatMap escapeChar ++ '"' :: rest) =
      .ok (name.toList, ⟨index + (writeText name.toList).length, rest⟩) := by
  have length : index + 1 + (name.toList.flatMap escapeChar).length + 1 = index + (writeText name.toList).length := by
    simp [writeText]
    omega
  rw [readText_writeText,length]

section Steps

variable {fuel depth index later : Nat} {value item : Json} {items : List Json} {members : List (String × Json)}
  {body rest text : Chars} {after : Cursor}

private theorem readValue_text (value : String) :
    readValue (fuel + 1) depth ⟨index, writeText value.toList ++ rest⟩ =
      .ok (.text value, ⟨index + (writeText value.toList).length, rest⟩) := by
  simp only [writeText_append,readValue,readText_name,bind,Except.bind,pure,Except.pure,String.ofList_toList]

private theorem readValue_array_nil :
    readValue (fuel + 1) (depth + 1) ⟨index, '[' :: ']' :: rest⟩ = .ok (.array [], ⟨index + 2, rest⟩) := by
  simp only [readValue]
  rfl

private theorem readValue_array (begins : Begins body)
    (read : readItems fuel depth ⟨index + 1, body⟩ = .ok (items, after)) :
    readValue (fuel + 1) (depth + 1) ⟨index, '[' :: body⟩ = .ok (.array items, after) := by
  obtain ⟨c, tail, shape, -, bracket, -⟩ := begins.cons
  simp only [readValue,begins.skip,read]
  subst shape
  split
  · rename_i same
    exact absurd (List.cons.inj same).1 bracket
  · rfl

private theorem readValue_object_nil :
    readValue (fuel + 1) (depth + 1) ⟨index, '{' :: '}' :: rest⟩ = .ok (.object [], ⟨index + 2, rest⟩) := by
  simp only [readValue]
  rfl

private theorem readValue_object (begins : Begins body)
    (read : readMembers fuel depth ⟨index + 1, body⟩ = .ok (members, after)) :
    readValue (fuel + 1) (depth + 1) ⟨index, '{' :: body⟩ = .ok (.object members, after) := by
  obtain ⟨c, tail, shape, -, -, brace, -⟩ := begins.cons
  simp only [readValue,begins.skip,read]
  subst shape
  split
  · rename_i same
    exact absurd (List.cons.inj same).1 brace
  · rfl

private theorem readItems_last (read : readValue fuel depth ⟨index, text⟩ = .ok (item, ⟨later, ']' :: rest⟩)) :
    readItems (fuel + 1) depth ⟨index, text⟩ = .ok ([item], ⟨later + 1, rest⟩) := by
  simp only [readItems,read]
  rfl

private theorem readItems_more (read : readValue fuel depth ⟨index, text⟩ = .ok (item, ⟨later, ',' :: ' ' :: body⟩))
    (begins : Begins body) (rest : readItems fuel depth ⟨later + 2, body⟩ = .ok (items, after)) :
    readItems (fuel + 1) depth ⟨index, text⟩ = .ok (item :: items, after) := by
  simp only [readItems,read,bind,Except.bind,Cursor.skip_mark (by decide : isSpace ',' = false),Cursor.drop_one,
    begins.skip_space,rest]
  rfl

private theorem readMembers_last (begins : Begins text) {name : String}
    (read : readValue fuel depth ⟨index + (writeText name.toList).length + 2, text⟩ =
      .ok (value, ⟨later, '}' :: rest⟩)) :
    readMembers (fuel + 1) depth ⟨index, writeText name.toList ++ ':' :: ' ' :: text⟩ =
      .ok ([(name, value)], ⟨later + 1, rest⟩) := by
  simp only [writeText_append,readMembers,readText_name,bind,Except.bind,
    Cursor.skip_mark (by decide : isSpace ':' = false),Cursor.drop_one,begins.skip_space,read,String.ofList_toList]
  rfl

private theorem readMembers_more (begins : Begins text) {name : String}
    (read : readValue fuel depth ⟨index + (writeText name.toList).length + 2, text⟩ =
      .ok (value, ⟨later, ',' :: ' ' :: body⟩))
    (onward : Begins body) (rest : readMembers fuel depth ⟨later + 2, body⟩ = .ok (members, after)) :
    readMembers (fuel + 1) depth ⟨index, writeText name.toList ++ ':' :: ' ' :: text⟩ =
      .ok ((name, value) :: members, after) := by
  simp only [writeText_append,readMembers,readText_name,bind,Except.bind,
    Cursor.skip_mark (by decide : isSpace ':' = false),Cursor.skip_mark (by decide : isSpace ',' = false),
    Cursor.drop_one,begins.skip_space,read,onward.skip_space,rest,String.ofList_toList]
  rfl

end Steps

section Writing

/-- The parts of an array or object with commas between them. -/
def joined (parts : List Chars) : Chars := List.intercalate [',', ' '] parts

/-- The written form of a member. -/
def writeMember (member : String × Json) : Chars := writeText member.1.toList ++ ':' :: ' ' :: write member.2

private theorem writeItems_eq (items : List Json) : writeItems .line items = items.map write := by
  induction items with
  | nil => rfl
  | cons item items ih => exact congrArg (write item :: ·) ih

private theorem writeMembers_eq (members : List (String × Json)) :
    writeMembers .line members = members.map writeMember := by
  induction members with
  | nil => rfl
  | cons member members ih => exact congrArg (writeMember member :: ·) ih

private theorem bracket_line (opening closing : Char) {parts : List Chars} (some_ : parts ≠ []) :
    bracket opening closing .line parts = opening :: (joined parts ++ [closing]) := by
  rw [bracket,if_neg (by simpa using some_)]
  simp [Spacing.deeper,Spacing.lead,Spacing.between,joined]

private theorem write_array {items : List Json} (some_ : items ≠ []) :
    write (.array items) = '[' :: (joined (items.map write) ++ [']']) := by
  change bracket '[' ']' .line (writeItems .line items) = _
  rw [writeItems_eq,bracket_line _ _ (by simpa using some_)]

theorem write_object {members : List (String × Json)} (some_ : members ≠ []) :
    write (.object members) = '{' :: (joined (members.map writeMember) ++ ['}']) := by
  change bracket '{' '}' .line (writeMembers .line members) = _
  rw [writeMembers_eq,bracket_line _ _ (by simpa using some_)]

private theorem begins_writeMember (member : String × Json) : Begins (writeMember member) :=
  ⟨'"', _, rfl, by decide⟩

private theorem writeInt_cons (n : Int) : ∃ minus c tail, writeInt n = minus ++ c :: tail ∧ isPlainDigit c = true ∧
    (minus = [] ∨ minus = ['-']) := by
  obtain ⟨c, tail, eq, -⟩ := toDigits_cons n.natAbs
  have digit : isPlainDigit c = true := isPlainDigit_of_mem (eq ▸ List.mem_cons_self)
  rw [writeInt,eq]
  split
  · exact ⟨['-'], c, tail, rfl, digit, .inr rfl⟩
  · exact ⟨[], c, tail, rfl, digit, .inl rfl⟩

private theorem begins_writeInt (n : Int) : Begins (writeInt n) := by
  obtain ⟨minus, c, tail, eq, digit, rfl | rfl⟩ := writeInt_cons n
  · have other {d : Char} (mark : isPlainDigit d = false) : c ≠ d := ne_of_isPlainDigit digit mark
    refine ⟨c, tail, eq, ?_⟩
    simp [isStart,isSpace,other (by decide : isPlainDigit ' ' = false),other (by decide : isPlainDigit '\t' = false),
      other (by decide : isPlainDigit '\n' = false),other (by decide : isPlainDigit '\r' = false),
      other (by decide : isPlainDigit ']' = false),other (by decide : isPlainDigit '}' = false),
      other (by decide : isPlainDigit '\ufeff' = false)]
  · exact ⟨'-', c :: tail, eq, by decide⟩

private theorem find?_words_writeInt (n : Int) (rest : Chars) :
    words.find? (fun word => startsWith (writeInt n ++ rest) word.1) = none := by
  obtain ⟨minus, c, tail, eq, digit, rfl | rfl⟩ := writeInt_cons n
  · have other {d : Char} (mark : isPlainDigit d = false) : d ≠ c := (ne_of_isPlainDigit digit mark).symm
    simp [eq,words,startsWith,dropLead?,other (by decide : isPlainDigit 'n' = false),
      other (by decide : isPlainDigit 't' = false),other (by decide : isPlainDigit 'f' = false),
      other (by decide : isPlainDigit 'N' = false),other (by decide : isPlainDigit 'I' = false),
      other (by decide : isPlainDigit '-' = false)]
  · have other : 'I' ≠ c := (ne_of_isPlainDigit digit (by decide)).symm
    simp [eq,words,startsWith,dropLead?,other]

private theorem begins_bracket {opening : Char} (start : isStart opening = true) (closing : Char) (parts : List Chars) :
    Begins (bracket opening closing .line parts) := by
  rw [bracket]
  split <;> exact ⟨opening, _, rfl, start⟩

end Writing

/-- A part that is read with its closing mark behind it, or with a comma and more parts. -/
structure ReadsPart {α : Type} (readAll : Nat → Cursor → Except Problem (List α × Cursor)) (closing : Char)
    (written : Chars) (part : α) : Prop where
  begins : Begins written
  last {fuel index : Nat} {rest : Chars} (enough : 2 * written.length ≤ fuel) :
    readAll (fuel + 1) ⟨index, written ++ closing :: rest⟩ = .ok ([part], ⟨index + written.length + 1, rest⟩)
  more {fuel index : Nat} {body : Chars} {others : List α} {after : Cursor} (enough : 2 * written.length ≤ fuel)
    (onward : Begins body) (read : readAll fuel ⟨index + written.length + 2, body⟩ = .ok (others, after)) :
    readAll (fuel + 1) ⟨index, written ++ ',' :: ' ' :: body⟩ = .ok (part :: others, after)

section Lists

variable {α : Type} {readAll : Nat → Cursor → Except Problem (List α × Cursor)} {closing : Char} {write : α → Chars}
  {parts : List α} {fuel index : Nat} {rest : Chars}

private theorem joined_cons (part other : α) (parts : List α) :
    joined ((part :: other :: parts).map write) = write part ++ ',' :: ' ' :: joined ((other :: parts).map write) := by
  rw [joined,List.map_cons,List.map_cons,List.intercalate_cons_cons,List.append_assoc]
  rfl

private theorem begins_joined (some_ : parts ≠ [])
    (each : ∀ part ∈ parts, ReadsPart readAll closing (write part) part) :
    Begins (joined (parts.map write)) := by
  cases parts with
  | nil => exact absurd rfl some_
  | cons part parts =>
    have first := (each part List.mem_cons_self).begins
    cases parts with
    | nil =>
      rw [List.map_singleton,joined,List.intercalate_singleton]
      exact first
    | cons other parts =>
      rw [joined_cons]
      exact first.append _

private theorem readAll_joined (some_ : parts ≠ []) (each : ∀ part ∈ parts, ReadsPart readAll closing (write part) part)
    (enough : 2 * (joined (parts.map write)).length + 1 ≤ fuel) :
    readAll fuel ⟨index, joined (parts.map write) ++ closing :: rest⟩ =
      .ok (parts, ⟨index + (joined (parts.map write)).length + 1, rest⟩) := by
  -- every part takes one unit of fuel, and its text has two characters to spare for the comma and the space
  induction parts generalizing fuel index with
  | nil => exact absurd rfl some_
  | cons part parts ih =>
    have first := each part List.mem_cons_self
    obtain ⟨fuel, rfl⟩ : ∃ less, fuel = less + 1 := ⟨fuel - 1, by omega⟩
    cases parts with
    | nil =>
      have single : joined ([part].map write) = write part := List.intercalate_singleton
      rw [single] at enough ⊢
      exact first.last (by omega)
    | cons other parts =>
      have later := fun part member => each part (List.mem_cons_of_mem _ member)
      have length : (joined ((part :: other :: parts).map write)).length =
          (write part).length + 2 + (joined ((other :: parts).map write)).length := by
        rw [joined_cons,List.length_append,List.length_cons,List.length_cons]
        omega
      have read : readAll fuel ⟨index + (write part).length + 2, joined ((other :: parts).map write) ++ closing :: rest⟩ =
          .ok (other :: parts, _) := ih (List.cons_ne_nil _ _) later (by omega)
      have place : index + (joined ((part :: other :: parts).map write)).length + 1 =
          index + (write part).length + 2 + (joined ((other :: parts).map write)).length + 1 := by omega
      rw [place,joined_cons,List.append_assoc]
      exact first.more (by omega) ((begins_joined (List.cons_ne_nil _ _) later).append (closing :: rest)) read

private theorem readAll_bracketed (some_ : parts ≠ [])
    (each : ∀ part ∈ parts, ReadsPart readAll closing (write part) part)
    {opening : Char} (enough : 2 * (opening :: (joined (parts.map write) ++ [closing])).length ≤ fuel + 1) :
    readAll fuel ⟨index + 1, joined (parts.map write) ++ closing :: rest⟩ =
      .ok (parts, ⟨index + (opening :: (joined (parts.map write) ++ [closing])).length, rest⟩) := by
  have length : (opening :: (joined (parts.map write) ++ [closing])).length = (joined (parts.map write)).length + 2 := by
    simp
  rw [readAll_joined some_ each (by omega),length,Nat.add_right_comm index 1]
  rfl

end Lists

/-- A document is read back from its written form, with what follows it left over. -/
structure ReadsBack (json : Json) : Prop where
  begins : Begins (write json)
  read {fuel depth index : Nat} {rest : Chars} (shallow : json.height ≤ depth)
    (enough : 2 * (write json).length ≤ fuel + 1) (delimited : Delimited rest) :
    readValue (fuel + 1) depth ⟨index, write json ++ rest⟩ = .ok (json, ⟨index + (write json).length, rest⟩)

namespace ReadsBack

private theorem readValue {json : Json} (back : ReadsBack json) {fuel depth index : Nat} {rest : Chars}
    (shallow : json.height ≤ depth) (enough : 2 * (write json).length ≤ fuel) (delimited : Delimited rest) :
    readValue fuel depth ⟨index, write json ++ rest⟩ = .ok (json, ⟨index + (write json).length, rest⟩) := by
  obtain ⟨c, tail, eq, -⟩ := back.begins.shape
  have positive : 0 < (write json).length := by
    rw [eq]
    exact Nat.succ_pos _
  obtain ⟨fuel, rfl⟩ : ∃ less, fuel = less + 1 := ⟨fuel - 1, by omega⟩
  exact back.read shallow enough delimited

private theorem item {item : Json} (back : ReadsBack item) {depth : Nat} (shallow : item.height ≤ depth) :
    ReadsPart (fun fuel => readItems fuel depth) ']' (write item) item where
  begins := back.begins
  last enough := readItems_last (back.readValue shallow enough (.bracket _))
  more enough onward read := readItems_more (back.readValue shallow enough (.comma _)) onward read

private theorem member {member : String × Json} (back : ReadsBack member.2) {depth : Nat}
    (shallow : member.2.height ≤ depth) :
    ReadsPart (fun fuel => readMembers fuel depth) '}' (writeMember member) member := by
  have length : (writeMember member).length = (writeText member.1.toList).length + 2 + (write member.2).length := by
    rw [writeMember,List.length_append,List.length_cons,List.length_cons]
    omega
  refine ⟨begins_writeMember member, fun {fuel index rest} enough => ?_,
    fun {fuel index body others after} enough onward read => ?_⟩
  · have place : index + (writeMember member).length + 1 =
        index + (writeText member.1.toList).length + 2 + (write member.2).length + 1 := by omega
    rw [place,writeMember,List.append_assoc]
    exact readMembers_last (back.begins.append _) (back.readValue shallow (by omega) (.brace _))
  · have place : index + (writeMember member).length + 2 =
        index + (writeText member.1.toList).length + 2 + (write member.2).length + 2 := by omega
    rw [place] at read
    rw [writeMember,List.append_assoc]
    exact readMembers_more (back.begins.append _) (back.readValue shallow (by omega) (.comma _)) onward read

end ReadsBack

private theorem readAtom_writeInt {n : Int} (short : (Nat.toDigits 10 n.natAbs).length ≤ digitLimit) {rest : Chars}
    (delimited : Delimited rest) (index : Nat) :
    readAtom ⟨index, writeInt n ++ rest⟩ = .ok (.int n, ⟨index + (writeInt n).length, rest⟩) := by
  simp only [readAtom,find?_words_writeInt]
  exact readNumber_writeInt delimited short index

private theorem readsBack_int {n : Int} (short : (Nat.toDigits 10 n.natAbs).length ≤ digitLimit) : ReadsBack
    (.int n) := by
  refine ⟨begins_writeInt n, fun {fuel depth index rest} _ _ delimited => ?_⟩
  have atom := readAtom_writeInt short delimited index
  change readValue (fuel + 1) depth ⟨index, writeInt n ++ rest⟩ = .ok (.int n, ⟨index + (writeInt n).length, rest⟩)
  obtain ⟨minus, c, tail, eq, digit, rfl | rfl⟩ := writeInt_cons n
  · have other {d : Char} (mark : isPlainDigit d = false) : c ≠ d := ne_of_isPlainDigit digit mark
    rw [eq] at atom ⊢
    simpa [readValue,other (by decide : isPlainDigit '"' = false),other (by decide : isPlainDigit '[' = false),
      other (by decide : isPlainDigit '{' = false)] using atom
  · rw [eq] at atom ⊢
    simpa [readValue] using atom

private theorem readsBack_array {items : List Json} (each : ∀ item ∈ items, ReadsBack item) : ReadsBack
    (.array items) := by
  refine ⟨begins_bracket (by decide) _ _, fun {fuel depth index rest} shallow enough _ => ?_⟩
  rw [height] at shallow
  obtain ⟨depth, rfl⟩ : ∃ less, depth = less + 1 := ⟨depth - 1, by omega⟩
  by_cases some_ : items = []
  · subst some_
    exact readValue_array_nil
  · have low := heightItems_le_iff.mp (Nat.le_of_succ_le_succ shallow)
    have parts : ∀ item ∈ items, ReadsPart (fun fuel => readItems fuel depth) ']' (write item) item :=
      fun item member => (each item member).item (low item member)
    rw [write_array some_] at enough ⊢
    rw [List.cons_append,List.append_assoc]
    exact readValue_array ((begins_joined some_ parts).append _) (readAll_bracketed some_ parts enough)

private theorem readsBack_object {members : List (String × Json)} (each : ∀ member ∈ members, ReadsBack member.2) :
    ReadsBack (.object members) := by
  refine ⟨begins_bracket (by decide) _ _, fun {fuel depth index rest} shallow enough _ => ?_⟩
  rw [height] at shallow
  obtain ⟨depth, rfl⟩ : ∃ less, depth = less + 1 := ⟨depth - 1, by omega⟩
  by_cases some_ : members = []
  · subst some_
    exact readValue_object_nil
  · have low := heightMembers_le_iff.mp (Nat.le_of_succ_le_succ shallow)
    have parts : ∀ member ∈ members, ReadsPart (fun fuel => readMembers fuel depth) '}' (writeMember member) member :=
      fun member among => (each member among).member (low member among)
    rw [write_object some_] at enough ⊢
    rw [List.cons_append,List.append_assoc]
    exact readValue_object ((begins_joined some_ parts).append _) (readAll_bracketed some_ parts enough)

private theorem Plain.readsBack {json : Json} (plain : Plain json) : ReadsBack json := by
  induction plain with
  | null =>
    refine ⟨⟨'n', _, rfl, by decide⟩, fun _ _ _ => ?_⟩
    simp only [readValue]
    rfl
  | bool value => cases value <;> exact ⟨⟨_, _, rfl, by decide⟩, fun _ _ _ => rfl⟩
  | int short => exact readsBack_int short
  | text value => exact ⟨⟨'"', _, rfl, by decide⟩, fun _ _ _ => readValue_text value⟩
  | array _ ih => exact readsBack_array ih
  | object _ _ ih => exact readsBack_object ih

/-- A plain document is read back from its written form, if it is not nested too deeply. -/
theorem Plain.read_write {json : Json} (plain : Plain json) {limit : Nat} (shallow : json.height ≤ limit) :
    read limit (write json) = .ok json := by
  have back := plain.readsBack
  have value := @ReadsBack.readValue _ back (2 * (write json).length + 2) _ 0 [] shallow (by omega) .nil
  have plainly : (write json).head? ≠ some '\ufeff' := by
    obtain ⟨c, tail, eq, -, -, -, mark⟩ := back.begins.cons
    rw [eq]
    exact fun same => mark (Option.some.inj same)
  rw [List.append_nil] at value
  rw [read,if_neg plainly,back.begins.skip,value]
  rfl

end Inyandiko.Json
