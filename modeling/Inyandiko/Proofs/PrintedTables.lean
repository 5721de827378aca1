import Inyandiko.Proofs.Expression.Adequacy
import Inyandiko.Proofs.JsonDocument
import Inyandiko.Proofs.Table

/-! Printed tables. A table of plain values, with lists and tables of such values in it to any depth, is printed as a
document, and the printed text evaluates to a new table with the same contents in the same order. -/
namespace Inyandiko

open Text

section Lists

variable {α β γ ε : Type}

private theorem forall_of_zip {inputs : List α} {outputs : List β} {property : β → Prop}
    (size : inputs.length = outputs.length)
    (each : ∀ pair ∈ inputs.zip outputs, property pair.2) : ∀ output ∈ outputs, property output := by
  intro output member
  rw [← List.map_snd_zip (Nat.le_of_eq size.symm)] at member
  obtain ⟨pair, among, rfl⟩ := List.mem_map.mp member
  exact each pair among

private theorem eq_of_mem_zip {first : List α} {second : List β} {f : α → γ} {g : β → γ}
    (same : first.map f = second.map g) : ∀ pair ∈ first.zip second, f pair.1 = g pair.2 := by
  induction first generalizing second with
  | nil => simp
  | cons a first ih =>
    cases second with
    | nil => cases same
    | cons b second =>
      obtain ⟨head, tail⟩ := List.cons.inj same
      rw [List.zip_cons_cons,List.forall_mem_cons]
      exact ⟨head, ih tail⟩

private theorem eq_of_zip {inputs : List α} {first second : List β} {rel : α → β → Prop}
    (one : inputs.length = first.length) (two : inputs.length = second.length)
    (only : ∀ pair ∈ inputs.zip first, ∀ other, rel pair.1 other → pair.2 = other)
    (each : ∀ pair ∈ inputs.zip second, rel pair.1 pair.2) : first = second := by
  induction inputs generalizing first second with
  | nil =>
    rw [List.eq_nil_of_length_eq_zero one.symm,List.eq_nil_of_length_eq_zero two.symm]
  | cons input inputs ih =>
    obtain ⟨a, first, rfl⟩ := List.exists_cons_of_length_eq_add_one one.symm
    obtain ⟨b, second, rfl⟩ := List.exists_cons_of_length_eq_add_one two.symm
    rw [List.zip_cons_cons,List.forall_mem_cons] at only each
    have head : a = b := only.1 b each.1
    rw [head,ih (Nat.succ.inj one) (Nat.succ.inj two) only.2 each.2]

/-- Going through a list succeeds if every result is low enough, and else it is too deep. -/
private theorem mapM_of_heights {step : α → Except Halt β} {height : β → Nat} {depth : Nat} {inputs : List α}
    {outputs : List β} (size : inputs.length = outputs.length)
    (each : ∀ pair ∈ inputs.zip outputs, step pair.1 = if height pair.2 ≤ depth then .ok pair.2 else .error .tooDeep) :
    inputs.mapM step = if ∀ output ∈ outputs, height output ≤ depth then .ok outputs else .error .tooDeep := by
  induction inputs generalizing outputs with
  | nil =>
    rw [List.eq_nil_of_length_eq_zero size.symm]
    simp [pure,Except.pure]
  | cons input inputs ih =>
    obtain ⟨output, outputs, rfl⟩ := List.exists_cons_of_length_eq_add_one size.symm
    rw [List.zip_cons_cons,List.forall_mem_cons] at each
    have first := each.1
    dsimp only at first
    rw [List.mapM_cons,first,ih (Nat.succ.inj size) each.2]
    simp only [List.forall_mem_cons]
    by_cases low : height output ≤ depth
    · by_cases rest : ∀ output ∈ outputs, height output ≤ depth
      · rw [if_pos low,if_pos rest,if_pos ⟨low, rest⟩]
        rfl
      · rw [if_pos low,if_neg rest,if_neg fun all => rest all.2]
        rfl
    · have high : ¬(height output ≤ depth ∧ ∀ output ∈ outputs, height output ≤ depth) := fun all => low all.1
      rw [if_neg low,if_neg high]
      rfl

end Lists

namespace Heap

/-- A value that is plain data, or a list or table of such values, and the document with its contents. The lists and
tables are at places from `least` on. -/
inductive Stores (heap : Heap) (least : Nat) : Value → Json → Prop
  | null : Stores heap least .null .null
  | bool (value : Bool) : Stores heap least (.bool value) (.bool value)
  | int {n : Int} (short : (Nat.toDigits 10 n.natAbs).length ≤ digitLimit) :
    Stores heap least (.number (.int n)) (.int n)
  | text (value : String) : Stores heap least (.text value) (.text value)
  | list {place : Nat} {values : List Value} {items : List Json} (since : least ≤ place)
    (held : heap.objects[place]? = some (.list values)) (size : values.length = items.length)
    (each : ∀ pair ∈ values.zip items, Stores heap least pair.1 pair.2) : Stores heap least (.ref place) (.array items)
  | dict {place : Nat} {entries : Table Value} {members : List (String × Json)} (since : least ≤ place)
    (held : heap.objects[place]? = some (.dict entries)) (names : entries.keys = members.map (·.1))
    (each : ∀ pair ∈ entries.entries.zip members, Stores heap least pair.1.2 pair.2.2) :
    Stores heap least (.ref place) (.object members)

/-- Every object is kept where it is. -/
def Extends (heap after : Heap) : Prop :=
  ∀ (place : Nat) (object : Object), heap.objects[place]? = some object → after.objects[place]? = some object

private theorem length_of_names {entries : Table Value} {members : List (String × Json)}
    (names : entries.keys = members.map (·.1)) :
    entries.entries.length = members.length := by
  have lengths := congrArg List.length names
  rwa [Table.keys,List.length_map,List.length_map] at lengths

namespace Stores

variable {heap : Heap} {least : Nat} {value : Value} {json : Json}

private theorem unique (stores : heap.Stores least value json) {other : Json} {bound : Nat}
    (also : heap.Stores bound value other) : json = other := by
  induction stores generalizing other bound with
  | null => cases also; rfl
  | bool => cases also; rfl
  | int => cases also; rfl
  | text => cases also; rfl
  | list _ held size _ ih =>
    cases also with
    | list _ held' size' each' =>
      cases held.symm.trans held'
      exact congrArg Json.array (eq_of_zip size size' (fun pair member _ stored => ih pair member stored) each')
    | dict _ held' => cases held.symm.trans held'
  | @dict place entries members _ held names _ ih =>
    cases also with
    | list _ held' => cases held.symm.trans held'
    | @dict _ _ others _ held' names' each' =>
      cases held.symm.trans held'
      refine congrArg Json.object (@eq_of_zip _ _ entries.entries members others
        (fun entry member => entry.1 = member.1 ∧ heap.Stores bound entry.2 member.2)
        (length_of_names names) (length_of_names names') ?_ ?_)
      · intro pair member other ⟨name, stored⟩
        have own : pair.1.1 = pair.2.1 := eq_of_mem_zip names pair member
        exact Prod.ext (own.symm.trans name) (ih pair member stored)
      · exact fun pair member => ⟨eq_of_mem_zip names' pair member, each' pair member⟩

private theorem plain (stores : heap.Stores least value json) : json.Plain := by
  induction stores with
  | null => exact .null
  | bool value => exact .bool value
  | int short => exact .int short
  | text value => exact .text value
  | list _ _ size _ ih => exact .array (forall_of_zip size ih)
  | @dict place entries members _ _ names _ ih =>
    refine .object ?_ (forall_of_zip (length_of_names names) ih)
    rw [← names]
    exact entries.nodup

private theorem mono (stores : heap.Stores least value json) {after : Heap} {lower : Nat} (low : lower ≤ least)
    (kept : heap.Extends after) : after.Stores lower value json := by
  induction stores with
  | null => exact .null
  | bool value => exact .bool value
  | int short => exact .int short
  | text value => exact .text value
  | list since held size _ ih => exact .list (Nat.le_trans low since) (kept _ _ held) size ih
  | dict since held names _ ih => exact .dict (Nat.le_trans low since) (kept _ _ held) names ih

end Stores

section Documents

variable {heap : Heap} {value : Value} {json : Json} {depth : Nat} {trail : List Nat}

/-- The places that a document is inside of store higher documents. -/
def Above (heap : Heap) (trail : List Nat) (height : Nat) : Prop :=
  ∀ place ∈ trail, ∃ outer, heap.Stores 0 (.ref place) outer ∧ height < outer.height

private theorem Stores.apart {place : Nat} (stores : heap.Stores 0 (.ref place) json)
    (above : heap.Above trail json.height) :
    trail.contains place = false := by
  rw [← Bool.not_eq_true,List.contains_iff_mem]
  intro member
  obtain ⟨outer, stored, higher⟩ := above place member
  rw [stores.unique stored] at higher
  exact Nat.lt_irrefl _ higher

private theorem Above.cons {place inner : Nat} (above : heap.Above trail json.height)
    (stores : heap.Stores 0 (.ref place) json) (lower : inner < json.height) : heap.Above (place :: trail) inner := by
  intro other member
  rcases List.mem_cons.mp member with rfl | member
  · exact ⟨json, stores, lower⟩
  · obtain ⟨outer, stored, higher⟩ := above other member
    exact ⟨outer, stored, Nat.lt_trans lower higher⟩

private theorem not_pow_le {limit n : Nat} (positive : 0 < limit) (short : (Nat.toDigits 10 n).length ≤ limit) :
    ¬Nat.pow 10 limit ≤ n :=
  Nat.not_le.mpr ((Nat.length_toDigits_le_iff (by decide) positive).mp short)

private theorem not_isLong {n : Int} (short : (Nat.toDigits 10 n.natAbs).length ≤ digitLimit) :
    Number.isLong n = false := by
  have positive : 0 < digitLimit := Nat.succ_pos 4299
  unfold Number.isLong
  exact decide_eq_false (not_pow_le positive short)

/-- The document of a value is the one that it stores, unless that is nested too deeply. -/
private theorem Stores.document (stores : heap.Stores 0 value json) (above : heap.Above trail json.height) :
    heap.document depth trail value = if json.height ≤ depth then .ok json else .error .tooDeep := by
  -- the trail grows by the place of the list or table whose contents are gone through
  induction stores generalizing depth trail with
  | null | bool | text => simp [Heap.document,Json.height]
  | int short => simp [Heap.document,Json.height,Number.writeInt,not_isLong short]
  | @list place values items since held size each ih =>
    have stores : heap.Stores 0 (.ref place) (.array items) := .list since held size each
    cases depth with
    | zero => rw [Heap.document,if_neg (by simp [Json.height])]
    | succ depth =>
      have parts : values.mapM (heap.document depth (place :: trail)) =
          if ∀ item ∈ items, item.height ≤ depth then .ok items else .error .tooDeep :=
        mapM_of_heights size fun pair member =>
          ih pair member (above.cons stores (Json.height_lt_array (List.of_mem_zip member).2))
      simp only [Heap.document,held,stores.apart above,Bool.false_eq_true,if_false,parts,Json.height,
        Nat.add_le_add_iff_right,Json.heightItems_le_iff]
      split <;> rfl
  | @dict place entries members since held names each ih =>
    have stores : heap.Stores 0 (.ref place) (.object members) := .dict since held names each
    cases depth with
    | zero => rw [Heap.document,if_neg (by simp [Json.height])]
    | succ depth =>
      have parts : entries.entries.mapM (fun entry => do
          return (entry.1, ← heap.document depth (place :: trail) entry.2)) =
          if ∀ member ∈ members, member.2.height ≤ depth then .ok members else .error .tooDeep := by
        refine mapM_of_heights (length_of_names names) fun pair member => ?_
        have name : pair.1.1 = pair.2.1 := eq_of_mem_zip names pair member
        rw [ih pair member (above.cons stores (Json.height_lt_object (List.of_mem_zip member).2)),name]
        split <;> rfl
      simp only [Heap.document,held,stores.apart above,Bool.false_eq_true,if_false,parts,Json.height,
        Nat.add_le_add_iff_right,Json.heightMembers_le_iff]
      split <;> rfl

private theorem Stores.display {members : List (String × Json)} (stores : heap.Stores 0 value (.object members)) :
    heap.display depth value =
      if (Json.object members).height ≤ depth then .ok (Json.object members).write else .error .tooDeep := by
  have above : heap.Above [] (Json.object members).height := fun place member => absurd member List.not_mem_nil
  have document : heap.document depth [] value = _ := stores.document above
  cases stores with
  | dict _ held _ _ =>
    simp only [Heap.display,held,document]
    split <;> rfl

end Documents

section Copies

variable {heap after : Heap}

private theorem Extends.refl (heap : Heap) : heap.Extends heap := fun _ _ held => held

private theorem Extends.trans {later : Heap} (first : heap.Extends after) (second : after.Extends later) :
    heap.Extends later :=
  fun place object held => second place object (first place object held)

private theorem Extends.size_le (kept : heap.Extends after) : heap.objects.size ≤ after.objects.size := by
  rcases Nat.eq_zero_or_pos heap.objects.size with empty | positive
  · omega
  · have last : heap.objects.size - 1 < heap.objects.size := by omega
    obtain ⟨inside, _⟩ := Array.getElem?_eq_some_iff.mp (kept _ _ (Array.getElem?_eq_getElem last))
    omega

private theorem extends_alloc (heap : Heap) (object : Object) : heap.Extends (heap.alloc object).2 := by
  intro place other held
  obtain ⟨inside, _⟩ := Array.getElem?_eq_some_iff.mp held
  rw [alloc,Array.getElem?_push,if_neg (Nat.ne_of_lt inside)]
  exact held

private theorem getElem?_alloc (heap : Heap) (object : Object) :
    (heap.alloc object).2.objects[heap.objects.size]? = some object :=
  Array.getElem?_push_size

/-- A new value that stores a document, made in a heap whose objects are kept. -/
structure Copy (heap : Heap) (json : Json) (made : Value × Heap) : Prop where
  stores : made.2.Stores heap.objects.size made.1 json
  kept : heap.Extends made.2

private theorem copy_items {items : List Json} (each : ∀ item ∈ items, ∀ heap, Copy heap item (ofJson heap item))
    (heap : Heap) :
    (ofItems heap items).1.length = items.length ∧ heap.Extends (ofItems heap items).2 ∧
      ∀ pair ∈ (ofItems heap items).1.zip items, (ofItems heap items).2.Stores heap.objects.size pair.1 pair.2 := by
  induction items generalizing heap with
  | nil => exact ⟨rfl, .refl heap, fun pair member => absurd member List.not_mem_nil⟩
  | cons item items ih =>
    obtain ⟨head, tail⟩ := List.forall_mem_cons.mp each
    obtain ⟨stores, kept⟩ := head heap
    obtain ⟨size, later, rest⟩ := ih tail (ofJson heap item).2
    simp only [ofItems,List.zip_cons_cons,List.forall_mem_cons]
    exact ⟨congrArg Nat.succ size, kept.trans later, stores.mono (Nat.le_refl _) later,
      fun pair member => (rest pair member).mono kept.size_le (.refl _)⟩

private theorem copy_members {members : List (String × Json)}
    (each : ∀ member ∈ members, ∀ heap, Copy heap member.2 (ofJson heap member.2)) (heap : Heap) :
    (ofMembers heap members).1.map (·.1) = members.map (·.1) ∧ heap.Extends (ofMembers heap members).2 ∧
      ∀ pair ∈ (ofMembers heap members).1.zip members,
        (ofMembers heap members).2.Stores heap.objects.size pair.1.2 pair.2.2 := by
  induction members generalizing heap with
  | nil => exact ⟨rfl, .refl heap, fun pair member => absurd member List.not_mem_nil⟩
  | cons member members ih =>
    obtain ⟨head, tail⟩ := List.forall_mem_cons.mp each
    obtain ⟨stores, kept⟩ := head heap
    obtain ⟨names, later, rest⟩ := ih tail (ofJson heap member.2).2
    simp only [ofMembers,List.zip_cons_cons,List.forall_mem_cons,List.map_cons]
    exact ⟨congrArg (member.1 :: ·) names, kept.trans later, stores.mono (Nat.le_refl _) later,
      fun pair member => (rest pair member).mono kept.size_le (.refl _)⟩

private theorem copy_ofJson {json : Json} (plain : json.Plain) (heap : Heap) : Copy heap json (heap.ofJson json) := by
  induction plain generalizing heap with
  | null => exact ⟨.null, .refl heap⟩
  | bool value => exact ⟨.bool value, .refl heap⟩
  | int short => exact ⟨.int short, .refl heap⟩
  | text value => exact ⟨.text value, .refl heap⟩
  | @array items _ ih =>
    obtain ⟨size, kept, stores⟩ := copy_items ih heap
    rw [ofJson]
    have more := extends_alloc (ofItems heap items).2 (.list (ofItems heap items).1)
    exact ⟨.list kept.size_le (getElem?_alloc _ _) size fun pair member => (stores pair member).mono (Nat.le_refl _) more,
      kept.trans more⟩
  | @object members distinct _ ih =>
    obtain ⟨names, kept, stores⟩ := copy_members ih heap
    have more := extends_alloc (ofMembers heap members).2 (.dict (.ofList (ofMembers heap members).1))
    have entries : (Table.ofList (ofMembers heap members).1).entries = (ofMembers heap members).1 :=
      Table.entries_insertAll .empty (by rwa [Table.empty,List.nil_append,names])
    rw [ofJson]
    refine ⟨.dict kept.size_le (getElem?_alloc _ _) ?_ ?_, kept.trans more⟩
    · rw [Table.keys,entries,names]
    · rw [entries]
      exact fun pair member => (stores pair member).mono (Nat.le_refl _) more

end Copies

end Heap

section Evaluation

variable (lookup : String → Option Value) (heap : Heap) {inner : Chars} {json : Json}

private theorem write_object_braces (members : List (String × Json)) :
    ∃ inner, (Json.object members).write = '{' :: (inner ++ ['}']) := by
  by_cases some_ : members = []
  · subst some_
    exact ⟨[], rfl⟩
  · exact ⟨_, Json.write_object some_⟩

private theorem documentLiteral?_braces (read : Json.read heap.runtime.reading ('{' :: (inner ++ ['}'])) = .ok json) :
    documentLiteral? ('{' :: (inner ++ ['}'])) heap = .ok (some (heap.ofJson json).1, (heap.ofJson json).2) := by
  have bracketed : isBracketed ('{' :: (inner ++ ['}'])) = true := by
    rw [isBracketed,← List.cons_append,List.getLast?_concat]
    rfl
  simp only [documentLiteral?,bracketed,if_true,bind,StateT.bind,get,getThe,MonadStateOf.get,StateT.get,pure,Except.pure,
    Except.bind,read]
  rfl

private theorem simpleValue?_braces (read : Json.read heap.runtime.reading ('{' :: (inner ++ ['}'])) = .ok json) :
    simpleValue? lookup ('{' :: (inner ++ ['}'])) heap =
      .ok (some (heap.ofJson json).1, (heap.ofJson json).2) := by
  have unquoted : textLiteral? ('{' :: (inner ++ ['}'])) = .ok none := rfl
  simp only [simpleValue?,unquoted]
  change (documentLiteral? _ heap).bind _ = _
  rw [documentLiteral?_braces heap read]
  rfl

private theorem evaluate_braces (read : Json.read heap.runtime.reading ('{' :: (inner ++ ['}'])) = .ok json) :
    evaluate lookup ('{' :: (inner ++ ['}'])) heap = .ok (heap.ofJson json) := by
  have trimmed : trim ('{' :: (inner ++ ['}'])) = '{' :: (inner ++ ['}']) := by
    refine Trimmed.trim_eq ⟨(by decide : isBlank '{' = false), ?_⟩
    rw [← List.cons_append,List.getLast?_concat]
    decide
  exact evaluateWithin_run trimmed (List.cons_ne_nil _ _) (simpleValue?_braces lookup heap read)

end Evaluation

/-- Printed tables read back: the printed form of a table is its document, and this evaluates to a new table that stores
the same document. Only nesting beyond the limits prevents it, and for every nesting there are limits that allow it. -/
theorem printed_tables_read_back (lookup : String → Option Value) {heap : Heap} {value : Value}
    {members : List (String × Json)} (stores : heap.Stores 0 value (.object members)) :
    (∀ limit, (Json.object members).height ≤ limit →
      heap.display limit value = .ok (Json.object members).write ∧
      Json.read limit (Json.object members).write = .ok (.object members)) ∧
    ((Json.object members).height ≤ heap.runtime.printing → (Json.object members).height ≤ heap.runtime.reading →
      ∃ text copy after,
      heap.displayText value = .ok text ∧ evaluate lookup text.toList heap = .ok (copy, after) ∧
      after.Stores heap.objects.size copy (.object members) ∧ heap.Extends after) ∧
    (heap.runtime.printing < (Json.object members).height → heap.displayText value = .error .tooDeep) := by
  have plain := stores.plain
  refine ⟨fun limit low => ⟨?_, plain.read_write low⟩, fun low readable => ?_, fun high => ?_⟩
  · rw [stores.display,if_pos low]
  · obtain ⟨inner, braces⟩ := write_object_braces members
    have read := plain.read_write readable
    rw [braces] at read
    obtain ⟨copied, kept⟩ := Heap.copy_ofJson plain heap
    refine ⟨String.ofList (Json.object members).write, _, _, ?_, ?_, copied, kept⟩
    · rw [Heap.displayText,stores.display,if_pos low]
      rfl
    · rw [String.toList_ofList,braces]
      exact evaluate_braces lookup heap read
  · rw [Heap.displayText,stores.display,if_neg (Nat.not_le.mpr high)]
    rfl

theorem printed_tables_read_back_shared :
    let heap : Heap := { objects := #[.list [.text "é\"\n", .number (.int (-12)), .null],
      .dict (.ofList [("b", .ref 0), ("a", .bool true), ("c", .ref 0)])] }
    let items : Json := .array [.text "é\"\n", .int (-12), .null]
    heap.Stores 0 (.ref 1) (.object [("b", items), ("a", .bool true), ("c", items)]) ∧
    heap.displayText (.ref 1) = .ok
      "\x7b\"b\": [\"\\u00e9\\\"\\n\", -12, null], \"a\": true, \"c\": [\"\\u00e9\\\"\\n\", -12, null]\x7d" ∧
    ∃ copy after, evaluate (fun _ => none)
      "\x7b\"b\": [\"\\u00e9\\\"\\n\", -12, null], \"a\": true, \"c\": [\"\\u00e9\\\"\\n\", -12, null]\x7d".toList heap =
        .ok (copy, after) ∧
      after.Stores 2 copy (.object [("b", items), ("a", .bool true), ("c", items)]) ∧ heap.Extends after := by
  intro heap items
  have list : heap.Stores 0 (.ref 0) items := by
    refine .list (Nat.zero_le _) rfl rfl ?_
    simp only [List.zip_cons_cons,List.zip_nil_left,List.forall_mem_cons]
    exact ⟨.text _, .int (by decide), .null, fun pair member => absurd member List.not_mem_nil⟩
  have stores : heap.Stores 0 (.ref 1) (.object [("b", items), ("a", .bool true), ("c", items)]) := by
    refine .dict (Nat.zero_le _) rfl rfl ?_
    change ∀ pair ∈ [(("b", .ref 0), ("b", items)), (("a", .bool true), ("a", .bool true)), (("c", .ref 0), ("c", items))],
      heap.Stores 0 pair.1.2 pair.2.2
    simp only [List.forall_mem_cons]
    exact ⟨list, .bool true, list, fun pair member => absurd member List.not_mem_nil⟩
  obtain ⟨printed, reread, -⟩ := printed_tables_read_back (fun _ => none) stores
  obtain ⟨text, copy, after, shown, evaluated, copied, kept⟩ := reread (by decide) (by decide)
  have display := shown
  rw [Heap.displayText,(printed heap.runtime.printing (by decide)).1] at display
  cases display
  exact ⟨stores, shown, copy, after, evaluated, copied, kept⟩

end Inyandiko
