/-!
Tables with text keys, in the order in which the keys first came in. Writing a key that is already there keeps its
place and replaces its value, so a table is a list of entries in which no key occurs twice. Every map of the library
is such a table, because its order is visible in what the compiler writes.
-/
namespace DspPatch

/-- The entries with `value` under `key`: in the place of the old entry if there is one, else at the end. -/
def putEntry {α : Type} (key : String) (value : α) : List (String × α) → List (String × α)
  | [] => [(key, value)]
  | (k, v) :: rest => if k = key then (k, value) :: rest else (k, v) :: putEntry key value rest

theorem mem_keys_putEntry {α : Type} (key : String) (value : α) (entries : List (String × α)) (k : String) :
    k ∈ (putEntry key value entries).map Prod.fst ↔ k = key ∨ k ∈ entries.map Prod.fst := by
  induction entries with
  | nil => simp [putEntry]
  | cons entry rest ih =>
    obtain ⟨k₀, v₀⟩ := entry
    by_cases same : k₀ = key
    · simp [putEntry, same]
    · simp only [putEntry, same, if_false, List.map_cons, List.mem_cons, ih]
      exact or_left_comm

theorem nodup_keys_putEntry {α : Type} (key : String) (value : α) (entries : List (String × α))
    (nodup : (entries.map Prod.fst).Nodup) : ((putEntry key value entries).map Prod.fst).Nodup := by
  induction entries with
  | nil => simp [putEntry]
  | cons entry rest ih =>
    obtain ⟨k₀, v₀⟩ := entry
    simp only [List.map_cons, List.nodup_cons] at nodup
    by_cases same : k₀ = key
    · rw [putEntry, if_pos same, List.map_cons, List.nodup_cons]
      exact nodup
    · rw [putEntry, if_neg same, List.map_cons, List.nodup_cons, mem_keys_putEntry]
      exact ⟨fun found => found.elim same nodup.1, ih nodup.2⟩

/-- Entries in the order in which their keys first came in; no key occurs twice. -/
structure Table (α : Type) where
  entries : List (String × α)
  nodup : (entries.map Prod.fst).Nodup

namespace Table
variable {α β : Type}

/-- The table without entries. -/
def empty : Table α := ⟨[], by simp⟩

instance : EmptyCollection (Table α) := ⟨empty⟩
instance : Inhabited (Table α) := ⟨empty⟩

/-- Tables with the same entries in the same order are equal. -/
theorem ext {s t : Table α} (same : s.entries = t.entries) : s = t := by
  cases s; cases t; cases same; rfl

instance [DecidableEq α] : DecidableEq (Table α) := fun s t =>
  decidable_of_iff (s.entries = t.entries) ⟨ext, fun same => same ▸ rfl⟩

/-- The keys in order. -/
def keys (t : Table α) : List String := t.entries.map Prod.fst

/-- The values in the order of their keys. -/
def values (t : Table α) : List α := t.entries.map Prod.snd

def size (t : Table α) : Nat := t.entries.length

def isEmpty (t : Table α) : Bool := t.entries.isEmpty

def get? (t : Table α) (key : String) : Option α := t.entries.lookup key

theorem mem_keys_of_get? {t : Table α} {key : String} {value : α} (found : t.get? key = some value) :
    key ∈ t.keys := by
  unfold get? at found
  unfold keys
  generalize t.entries = entries at found
  induction entries with
  | nil => simp at found
  | cons entry rest ih =>
    obtain ⟨k, v⟩ := entry
    by_cases same : key = k
    · simp [same]
    · have : (key == k) = false := by simpa using same
      rw [List.lookup_cons, this] at found
      exact List.mem_cons_of_mem _ (ih found)

theorem not_mem_keys_of_get? {t : Table α} {key : String} (missing : t.get? key = none) : key ∉ t.keys := by
  unfold get? at missing
  unfold keys
  generalize t.entries = entries at missing
  induction entries with
  | nil => simp
  | cons entry rest ih =>
    obtain ⟨k, v⟩ := entry
    by_cases same : key = k
    · simp [same] at missing
    · have differs : (key == k) = false := by simpa using same
      rw [List.lookup_cons, differs] at missing
      rw [List.map_cons, List.mem_cons]
      exact fun found => found.elim same (ih missing)

def contains (t : Table α) (key : String) : Bool := (t.get? key).isSome

/-- `value` stored under `key`; a key that is already there keeps its place. -/
def insert (t : Table α) (key : String) (value : α) : Table α :=
  ⟨putEntry key value t.entries, nodup_keys_putEntry key value t.entries t.nodup⟩

/-- `value` stored under `key` unless the key is taken. -/
def insertNew (t : Table α) (key : String) (value : α) : Table α :=
  if t.contains key then t else t.insert key value

/-- The entries written one after the other into an empty table. -/
def ofList (entries : List (String × α)) : Table α :=
  entries.foldl (fun t entry => t.insert entry.1 entry.2) empty

/-- Every value changed by `f`, keys and order kept. -/
def map (f : α → β) (t : Table α) : Table β :=
  ⟨t.entries.map (fun entry => (entry.1, f entry.2)), by simpa [Function.comp_def] using t.nodup⟩

/-- The value under `key` changed by `f`; nothing happens when the key is absent. -/
def modify (t : Table α) (key : String) (f : α → α) : Table α :=
  ⟨t.entries.map (fun entry => (entry.1, if entry.1 = key then f entry.2 else entry.2)),
    by simpa [Function.comp_def] using t.nodup⟩

/-- The entries that satisfy `keep`, in their order. -/
def filter (keep : String → α → Bool) (t : Table α) : Table α :=
  ⟨t.entries.filter (fun entry => keep entry.1 entry.2),
    List.Nodup.sublist (List.Sublist.map Prod.fst List.filter_sublist) t.nodup⟩

end Table
end DspPatch
