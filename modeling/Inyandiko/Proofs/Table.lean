import Inyandiko.Table

/-! Laws of tables: what a table holds under a name after insertions or under a function applied to its
values, and which names it has. -/
namespace Inyandiko.Table

variable {α β κ : Type} [BEq κ] [LawfulBEq κ]

@[ext]
theorem ext {first second : Table α} (same : first.entries = second.entries) : first = second := by
  cases first
  cases second
  simp_all

theorem lookup_entry [DecidableEq κ] (other name : κ) (value : α) (rest : List (κ × α)) :
    ((other, value) :: rest).lookup name = if name = other then some value else rest.lookup name := by
  by_cases hit : name = other
  · subst hit
    simp
  · have miss : (name == other) = false := beq_false_of_ne hit
    simp only [List.lookup_cons,miss,if_neg hit]

private theorem lookup_put (key name : String) (value : α) (entries : List (String × α)) :
    (put key value entries).lookup name =
      if name = key then some value else entries.lookup name := by
  induction entries with
  | nil => simp [put,lookup_entry]
  | cons entry rest ih =>
    obtain ⟨other, old⟩ := entry
    by_cases same : other = key
    · subst same
      by_cases hit : name = other <;> simp [put,lookup_entry,hit]
    · by_cases hit : name = other
      · subst hit
        simp [put,same]
      · simp [put,same,lookup_entry,hit,ih]

private theorem keys_put_of_mem (key : String) (value : α) (entries : List (String × α))
    (known : key ∈ entries.map (·.1)) :
    (put key value entries).map (·.1) = entries.map (·.1) := by
  induction entries with
  | nil => simp at known
  | cons entry rest ih =>
    obtain ⟨other, old⟩ := entry
    by_cases same : other = key
    · subst same
      simp [put]
    · have later : key ∈ rest.map (·.1) := by
        rcases List.mem_cons.mp known with head | tail
        · exact absurd head.symm same
        · exact tail
      simp only [put,if_neg same,List.map_cons,ih later]

private theorem map_put (f : α → β) (key : String) (value : α) (entries : List (String × α)) :
    (put key value entries).map (fun entry => (entry.1, f entry.2)) =
      put key (f value) (entries.map fun entry => (entry.1, f entry.2)) := by
  induction entries with
  | nil => rfl
  | cons entry rest ih =>
    obtain ⟨other, old⟩ := entry
    by_cases same : other = key <;> simp [put,same,ih]

theorem get?_insert (table : Table α) (key name : String) (value : α) :
    (table.insert key value).get? name = if name = key then some value else table.get? name :=
  lookup_put key name value table.entries

theorem get?_of_mem (table : Table α) {name : String} {value : α} (member : (name, value) ∈ table.entries) :
    table.get? name = some value := by
  obtain ⟨entries, nodup⟩ := table
  simp only [get?] at member ⊢
  induction entries with
  | nil => simp at member
  | cons entry rest ih =>
    obtain ⟨other, old⟩ := entry
    simp only [List.map_cons,List.nodup_cons] at nodup
    rcases List.mem_cons.mp member with head | tail
    · cases head
      simp
    · have different : name ≠ other := by
        rintro rfl
        exact nodup.1 (List.mem_map_of_mem tail)
      rw [lookup_entry,if_neg different]
      exact ih nodup.2 tail

private theorem lookup_isSome_iff (entries : List (String × α)) (name : String) :
    (entries.lookup name).isSome ↔ name ∈ entries.map (·.1) := by
  induction entries with
  | nil => simp
  | cons entry rest ih =>
    obtain ⟨other, value⟩ := entry
    by_cases hit : name = other
    · simp [hit]
    · rw [lookup_entry,if_neg hit,ih,List.map_cons,List.mem_cons,or_iff_right hit]

theorem contains_iff (table : Table α) (name : String) : table.contains name ↔ name ∈ table.keys :=
  lookup_isSome_iff table.entries name

theorem keys_insert_of_contains (table : Table α) (key : String) (value : α)
    (known : table.contains key = true) : (table.insert key value).keys = table.keys :=
  keys_put_of_mem key value table.entries ((contains_iff table key).mp known)

theorem get?_map (f : α → β) (table : Table α) (name : String) :
    (table.map f).get? name = (table.get? name).map f := by
  simp only [map,get?]
  induction table.entries with
  | nil => rfl
  | cons entry rest ih =>
    obtain ⟨other, value⟩ := entry
    by_cases hit : name = other <;> simp [lookup_entry,hit,ih]

theorem keys_map (f : α → β) (table : Table α) : (table.map f).keys = table.keys := by
  simp [keys,map]

theorem contains_map (f : α → β) (table : Table α) (name : String) :
    (table.map f).contains name = table.contains name := by
  simp [contains,get?_map]

theorem map_insert (f : α → β) (table : Table α) (key : String) (value : α) :
    (table.insert key value).map f = (table.map f).insert key (f value) :=
  ext (map_put f key value table.entries)

theorem map_map {γ : Type} (f : α → β) (g : β → γ) (table : Table α) :
    (table.map f).map g = table.map (g ∘ f) :=
  ext (by simp [map,List.map_map,Function.comp_def])

theorem mem_of_lookup {entries : List (κ × α)} {name : κ} {value : α}
    (found : entries.lookup name = some value) : (name, value) ∈ entries := by
  induction entries with
  | nil => cases found
  | cons entry rest ih =>
    obtain ⟨other, old⟩ := entry
    rw [List.lookup_cons] at found
    split at found
    · rename_i same
      cases found
      cases eq_of_beq same
      exact List.mem_cons_self
    · exact List.mem_cons_of_mem _ (ih found)

theorem mem_values_of_get? {table : Table α} {name : String} {value : α} (found : table.get? name = some value) :
    value ∈ table.values :=
  List.mem_map.2 ⟨(name, value), mem_of_lookup found, rfl⟩

private theorem mem_put {key : String} {value : α} {entries : List (String × α)} {entry : String × α}
    (member : entry ∈ put key value entries) : entry = (key, value) ∨ entry ∈ entries := by
  induction entries with
  | nil => exact .inl (List.mem_singleton.1 member)
  | cons first rest ih =>
    obtain ⟨other, old⟩ := first
    simp only [put] at member
    split at member
    · rcases List.mem_cons.1 member with same | later
      · exact .inl same
      · exact .inr (List.mem_cons_of_mem _ later)
    · rcases List.mem_cons.1 member with same | later
      · exact .inr (same ▸ List.mem_cons_self)
      · exact (ih later).imp_right (List.mem_cons_of_mem _)

/-- Every value of a table that grew was in it or was put into it. -/
theorem mem_values_insert {table : Table α} {key : String} {value found : α}
    (member : found ∈ (table.insert key value).values) : found = value ∨ found ∈ table.values := by
  obtain ⟨entry, among, rfl⟩ := List.mem_map.1 member
  rcases mem_put among with rfl | among
  · exact .inl rfl
  · exact .inr (List.mem_map_of_mem among)

theorem mem_values_insertAll {table : Table α} {entries : List (String × α)} {found : α}
    (member : found ∈ (table.insertAll entries).values) : found ∈ table.values ∨ found ∈ entries.map (·.2) := by
  induction entries generalizing table with
  | nil => exact .inl member
  | cons entry rest ih =>
    rcases ih member with member | member
    · rcases mem_values_insert member with rfl | member
      · exact .inr List.mem_cons_self
      · exact .inl member
    · exact .inr (List.mem_cons_of_mem _ member)

theorem mem_values_ofList {entries : List (String × α)} {found : α} (member : found ∈ (ofList entries).values) :
    found ∈ entries.map Prod.snd :=
  (mem_values_insertAll member).resolve_left nofun

theorem mem_values_merge {table other : Table α} {found : α} (member : found ∈ (table.merge other).values) :
    found ∈ table.values ∨ found ∈ other.values :=
  mem_values_insertAll member

theorem mem_values_erase {table : Table α} {key : String} {found : α}
    (member : found ∈ (table.erase key).values) : found ∈ table.values := by
  obtain ⟨entry, among, rfl⟩ := List.mem_map.1 member
  exact List.mem_map_of_mem (List.mem_filter.1 among).1

theorem map_id (table : Table α) : table.map id = table := ext (by simp [map])

theorem nodup_keys (table : Table α) : table.keys.Nodup := table.nodup

theorem get?_insertAll (table : Table α) {entries : List (String × α)} (nodup : (entries.map (·.1)).Nodup)
    (name : String) : (table.insertAll entries).get? name = (entries.lookup name).or (table.get? name) := by
  induction entries generalizing table with
  | nil => rfl
  | cons entry rest ih =>
    obtain ⟨key, value⟩ := entry
    obtain ⟨fresh, nodup⟩ := List.nodup_cons.mp nodup
    have grown : table.insertAll ((key, value) :: rest) = (table.insert key value).insertAll rest := rfl
    rw [grown,ih _ nodup,get?_insert,lookup_entry]
    split
    · rename_i same
      -- the name does not come again, so this entry is the last one for it
      have absent : rest.lookup name = none := by
        rw [← Option.not_isSome_iff_eq_none,lookup_isSome_iff,same]
        exact fresh
      rw [absent]
      rfl
    · rfl

theorem get?_merge (table other : Table α) (name : String) :
    (table.merge other).get? name = (other.get? name).or (table.get? name) :=
  get?_insertAll table other.nodup name

theorem lookup_mapEntries (f : String → α → β) (entries : List (String × α)) (name : String) :
    (entries.map fun entry => (entry.1, f entry.1 entry.2)).lookup name = (entries.lookup name).map (f name) := by
  induction entries with
  | nil => rfl
  | cons entry rest ih =>
    obtain ⟨other, value⟩ := entry
    by_cases hit : name = other
    · subst hit
      simp
    · simp [lookup_entry,hit,ih]

private theorem put_of_not_mem {key : String} {value : α} {entries : List (String × α)}
    (fresh : key ∉ entries.map (·.1)) : put key value entries = entries ++ [(key, value)] := by
  induction entries with
  | nil => rfl
  | cons entry rest ih =>
    rw [List.map_cons,List.mem_cons,not_or] at fresh
    rw [put,if_neg (Ne.symm fresh.1),ih fresh.2]
    rfl

/-- Entries with new names are put at the end, in their order. -/
theorem entries_insertAll (table : Table α) {entries : List (String × α)}
    (nodup : ((table.entries ++ entries).map (·.1)).Nodup) :
    (table.insertAll entries).entries = table.entries ++ entries := by
  induction entries generalizing table with
  | nil => rw [List.append_nil]; rfl
  | cons entry rest ih =>
    have fresh : entry.1 ∉ table.entries.map (·.1) := by
      rw [List.map_append,List.nodup_append] at nodup
      exact fun member => nodup.2.2 _ member _ List.mem_cons_self rfl
    have added : (table.insert entry.1 entry.2).entries = table.entries ++ [entry] := put_of_not_mem fresh
    have grown : table.insertAll (entry :: rest) = (table.insert entry.1 entry.2).insertAll rest := rfl
    rw [grown,ih,added,List.append_assoc]
    · rfl
    · rwa [added,List.append_assoc]

theorem empty_merge (table : Table α) : empty.merge table = table :=
  ext (entries_insertAll empty table.nodup)

section Order

/-- The names of a table after names are inserted: those that are new go to the end. -/
def joinKeys (known added : List String) : List String := known ++ added.filter fun key => !known.contains key

private theorem contains_joinKeys (known added : List String) (key : String) :
    (joinKeys known added).contains key = (known.contains key || added.contains key) := by
  rw [Bool.eq_iff_iff]
  by_cases old : key ∈ known <;> simp [joinKeys,old]

theorem joinKeys_assoc (first second third : List String) :
    joinKeys (joinKeys first second) third = joinKeys first (joinKeys second third) := by
  have newest : (third.filter fun key => !(joinKeys first second).contains key) =
      (third.filter fun key => !second.contains key).filter fun key => !first.contains key := by
    rw [List.filter_filter]
    apply List.filter_congr
    intro key _
    rw [contains_joinKeys,Bool.not_or]
  rw [joinKeys,newest,joinKeys,joinKeys,joinKeys,List.append_assoc,List.filter_append]

private theorem keys_insert (table : Table α) (key : String) (value : α) :
    (table.insert key value).keys = joinKeys table.keys [key] := by
  by_cases known : key ∈ table.keys
  · have same : (table.insert key value).keys = table.keys := keys_put_of_mem key value table.entries known
    simp [same,joinKeys,known]
  · have grown : (table.insert key value).entries = table.entries ++ [(key, value)] := put_of_not_mem known
    have new : table.keys.contains key = false := by simpa using known
    rw [joinKeys,List.filter_cons,new,keys,grown,List.map_append]
    rfl

theorem keys_insertAll (table : Table α) {entries : List (String × α)} (nodup : (entries.map (·.1)).Nodup) :
    (table.insertAll entries).keys = joinKeys table.keys (entries.map (·.1)) := by
  induction entries generalizing table with
  | nil => simp [joinKeys,insertAll]
  | cons entry rest ih =>
    obtain ⟨fresh, nodup⟩ := List.nodup_cons.mp nodup
    have grown : table.insertAll (entry :: rest) = (table.insert entry.1 entry.2).insertAll rest := rfl
    have apart : joinKeys [entry.1] (rest.map (·.1)) = entry.1 :: rest.map (·.1) := by
      rw [joinKeys,List.filter_eq_self.mpr]
      · rfl
      · intro key member
        have other : key ≠ entry.1 := by
          rintro rfl
          exact fresh member
        simpa using other
    rw [grown,ih _ nodup,keys_insert,joinKeys_assoc,apart,List.map_cons]

private theorem keys_merge (table other : Table α) : (table.merge other).keys = joinKeys table.keys other.keys :=
  keys_insertAll table other.nodup

private theorem map_some_entries (table : Table α) :
    table.entries.map some = table.keys.map fun key => (table.get? key).map fun value => (key, value) := by
  rw [keys,List.map_map]
  apply List.map_congr_left
  intro entry member
  simp [table.get?_of_mem member]

/-- Tables are the same if they have the same names in the same order, and the same values under them. -/
theorem ext_get? {first second : Table α} (order : first.keys = second.keys)
    (same : ∀ name, first.get? name = second.get? name) : first = second := by
  apply ext
  have entries : first.entries.map some = second.entries.map some := by
    simp only [map_some_entries,order,same]
  exact (List.map_inj_right fun _ _ => Option.some.inj).mp entries

theorem merge_assoc (first second third : Table α) :
    (first.merge second).merge third = first.merge (second.merge third) := by
  apply ext_get?
  · rw [keys_merge,keys_merge,keys_merge,keys_merge,joinKeys_assoc]
  · intro name
    rw [get?_merge,get?_merge,get?_merge,get?_merge,Option.or_assoc]

end Order

end Inyandiko.Table
