/-! Tables from names to values. A table keeps each name once, at the place of its
first insertion: inserting under a known name replaces the value and keeps the
place, and merging is insertion of the second table's entries one by one. -/
namespace Inyandiko

/-- A finite map from names that remembers the order of first insertion. -/
structure Table (α : Type) where
  entries : List (String × α)
  nodup : (entries.map (·.1)).Nodup

namespace Table

variable {α β : Type}

/-- Replaces the value under `key` where it stands, or adds the entry at the end. -/
def put (key : String) (value : α) : List (String × α) → List (String × α)
  | [] => [(key, value)]
  | (other, old) :: rest =>
    if other = key then (key, value) :: rest else (other, old) :: put key value rest

theorem mem_keys_put (key : String) (value : α) (entries : List (String × α)) (name : String) :
    name ∈ (put key value entries).map (·.1) ↔ name = key ∨ name ∈ entries.map (·.1) := by
  induction entries with
  | nil => simp [put]
  | cons entry rest ih =>
    obtain ⟨other, old⟩ := entry
    by_cases same : other = key
    · subst same; simp [put]
    · simp only [put, if_neg same, List.map_cons, List.mem_cons, ih]
      constructor <;> (rintro (h | h | h) <;> simp [h])

theorem nodup_keys_put (key : String) (value : α) (entries : List (String × α))
    (nodup : (entries.map (·.1)).Nodup) : ((put key value entries).map (·.1)).Nodup := by
  induction entries with
  | nil => simp [put]
  | cons entry rest ih =>
    obtain ⟨other, old⟩ := entry
    simp only [List.map_cons, List.nodup_cons] at nodup
    by_cases same : other = key
    · subst same; simpa [put] using nodup
    · simp only [put, if_neg same, List.map_cons, List.nodup_cons]
      refine ⟨fun member => ?_, ih nodup.2⟩
      rcases (mem_keys_put key value rest other).1 member with h | h
      · exact same h
      · exact nodup.1 h

def empty : Table α := ⟨[], List.nodup_nil⟩

instance : Inhabited (Table α) := ⟨empty⟩

def keys (table : Table α) : List String := table.entries.map (·.1)

def values (table : Table α) : List α := table.entries.map (·.2)

def size (table : Table α) : Nat := table.entries.length

def get? (table : Table α) (key : String) : Option α := table.entries.lookup key

def contains (table : Table α) (key : String) : Bool := (table.get? key).isSome

/-- Sets the value under a name; a new name goes to the end. -/
def insert (table : Table α) (key : String) (value : α) : Table α :=
  ⟨put key value table.entries, nodup_keys_put key value table.entries table.nodup⟩

def erase (table : Table α) (key : String) : Table α :=
  ⟨table.entries.filter (·.1 != key),
    (List.filter_sublist.map fun entry : String × α => entry.1).nodup table.nodup⟩

def insertAll (table : Table α) (entries : List (String × α)) : Table α :=
  entries.foldl (fun grown entry => grown.insert entry.1 entry.2) table

/-- The table of a list of entries: a repeated name keeps its first place and last value. -/
def ofList (entries : List (String × α)) : Table α := empty.insertAll entries

def merge (table other : Table α) : Table α := table.insertAll other.entries

def map (f : α → β) (table : Table α) : Table β :=
  ⟨table.entries.map fun entry => (entry.1, f entry.2), by
    simpa [List.map_map, Function.comp_def] using table.nodup⟩

end Table

end Inyandiko
