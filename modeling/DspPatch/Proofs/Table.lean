import DspPatch.Table

/-!
Reading tables. What `get?` finds is exactly what the entries hold, and every operation on a table is described by what
can be read afterwards and by the keys it leaves.
-/
namespace DspPatch

theorem lookup_eq_some_iff_mem {α : Type} {entries : List (String × α)} (nodup : (entries.map Prod.fst).Nodup)
    {key : String} {value : α} : entries.lookup key = some value ↔ (key, value) ∈ entries := by
  induction entries with
  | nil => simp
  | cons entry rest ih =>
    obtain ⟨k, v⟩ := entry
    rw [List.map_cons, List.nodup_cons] at nodup
    by_cases same : key = k
    · subst same
      have absent : (key, value) ∉ rest := fun member => nodup.1 (List.mem_map.mpr ⟨(key, value), member, rfl⟩)
      simp [absent, eq_comm]
    · have differs : (key == k) = false := by simpa using same
      rw [List.lookup_cons, differs, List.mem_cons]
      simp [ih nodup.2, same]

private theorem lookup_putEntry {α : Type} (key : String) (value : α) (entries : List (String × α)) (other : String) :
    (putEntry key value entries).lookup other = if other = key then some value else entries.lookup other := by
  induction entries with
  | nil => by_cases same : other = key <;> simp [putEntry, same]
  | cons entry rest ih =>
    obtain ⟨k, v⟩ := entry
    by_cases here : k = key
    · subst here
      by_cases same : other = k
      · simp [putEntry, same]
      · have differs : (other == k) = false := by simpa using same
        simp [putEntry, List.lookup_cons, differs, same]
    · rw [putEntry, if_neg here, List.lookup_cons, List.lookup_cons, ih]
      by_cases first : other = k
      · have different : other ≠ key := fun equal => here (first.symm.trans equal)
        simp [first, here]
      · have differs : (other == k) = false := by simpa using first
        simp [differs]

private theorem lookup_map {α β : Type} (f : String → α → β) (entries : List (String × α)) (key : String) :
    (entries.map (fun entry => (entry.1, f entry.1 entry.2))).lookup key = (entries.lookup key).map (f key) := by
  induction entries with
  | nil => rfl
  | cons entry rest ih =>
    obtain ⟨k, v⟩ := entry
    rw [List.map_cons, List.lookup_cons, List.lookup_cons, ih]
    by_cases same : key = k
    · simp [same]
    · have differs : (key == k) = false := by simpa using same
      simp [differs]

theorem putEntry_of_not_mem {α : Type} {key : String} {entries : List (String × α)} (value : α)
    (fresh : key ∉ entries.map Prod.fst) : putEntry key value entries = entries ++ [(key, value)] := by
  induction entries with
  | nil => rfl
  | cons entry rest ih =>
    obtain ⟨k, v⟩ := entry
    rw [List.map_cons, List.mem_cons, not_or] at fresh
    rw [putEntry, if_neg (Ne.symm fresh.1), ih fresh.2, List.cons_append]

theorem putEntry_of_mem {α : Type} {key : String} {value : α} {entries : List (String × α)}
    (nodup : (entries.map Prod.fst).Nodup) (member : (key, value) ∈ entries) : putEntry key value entries = entries := by
  induction entries with
  | nil => cases member
  | cons entry rest ih =>
    obtain ⟨k, v⟩ := entry
    rw [List.map_cons, List.nodup_cons] at nodup
    rcases List.mem_cons.mp member with first | later
    · cases first
      rw [putEntry, if_pos rfl]
    · have different : k ≠ key := fun same => nodup.1 (List.mem_map.mpr ⟨_, later, same.symm⟩)
      rw [putEntry, if_neg different, ih nodup.2 later]

private theorem keys_putEntry_of_mem {α : Type} {key : String} {entries : List (String × α)} (value : α)
    (member : key ∈ entries.map Prod.fst) : (putEntry key value entries).map Prod.fst = entries.map Prod.fst := by
  induction entries with
  | nil => cases member
  | cons entry rest ih =>
    obtain ⟨k, v⟩ := entry
    by_cases same : k = key
    · rw [putEntry, if_pos same, List.map_cons, List.map_cons]
    · rw [putEntry, if_neg same, List.map_cons, List.map_cons]
      rw [ih ((List.mem_cons.mp member).resolve_left (fun first => same first.symm))]

namespace Table
variable {α β : Type}

theorem get?_eq_some_iff {t : Table α} {key : String} {value : α} :
    t.get? key = some value ↔ (key, value) ∈ t.entries :=
  lookup_eq_some_iff_mem t.nodup

theorem mem_keys_iff {t : Table α} {key : String} : key ∈ t.keys ↔ ∃ value, t.get? key = some value := by
  simp only [get?_eq_some_iff, keys, List.mem_map]
  constructor
  · rintro ⟨⟨k, value⟩, member, rfl⟩
    exact ⟨value, member⟩
  · rintro ⟨value, member⟩
    exact ⟨(key, value), member, rfl⟩

@[simp] theorem contains_iff {t : Table α} {key : String} : t.contains key = true ↔ key ∈ t.keys := by
  rw [contains, Option.isSome_iff_exists, mem_keys_iff]

theorem mem_values_iff {t : Table α} {value : α} : value ∈ t.values ↔ ∃ key, t.get? key = some value := by
  simp only [get?_eq_some_iff, values, List.mem_map]
  constructor
  · rintro ⟨⟨key, v⟩, member, rfl⟩
    exact ⟨key, member⟩
  · rintro ⟨key, member⟩
    exact ⟨(key, value), member, rfl⟩

@[simp] theorem get?_empty (key : String) : (∅ : Table α).get? key = none := rfl

@[simp] theorem keys_empty : (∅ : Table α).keys = [] := rfl

theorem nodup_keys (t : Table α) : t.keys.Nodup := t.nodup

theorem get?_insert (t : Table α) (key : String) (value : α) (other : String) :
    (t.insert key value).get? other = if other = key then some value else t.get? other :=
  lookup_putEntry key value t.entries other

@[simp] theorem get?_insert_self (t : Table α) (key : String) (value : α) :
    (t.insert key value).get? key = some value := by
  rw [get?_insert, if_pos rfl]

theorem get?_insert_of_ne (t : Table α) {key other : String} (value : α) (different : other ≠ key) :
    (t.insert key value).get? other = t.get? other := by
  rw [get?_insert, if_neg different]

@[simp] theorem mem_keys_insert {t : Table α} {key : String} {value : α} {other : String} :
    other ∈ (t.insert key value).keys ↔ other = key ∨ other ∈ t.keys :=
  mem_keys_putEntry key value t.entries other

theorem entries_insert_of_not_mem {t : Table α} {key : String} (value : α) (fresh : key ∉ t.keys) :
    (t.insert key value).entries = t.entries ++ [(key, value)] :=
  putEntry_of_not_mem value fresh

theorem keys_insert_of_not_mem {t : Table α} {key : String} (value : α) (fresh : key ∉ t.keys) :
    (t.insert key value).keys = t.keys ++ [key] := by
  rw [keys, entries_insert_of_not_mem value fresh, List.map_append]
  rfl

theorem keys_insert_of_mem {t : Table α} {key : String} (value : α) (member : key ∈ t.keys) :
    (t.insert key value).keys = t.keys :=
  keys_putEntry_of_mem value member

/-- Storing a value where it is stored changes nothing. -/
theorem insert_of_get? {t : Table α} {key : String} {value : α} (found : t.get? key = some value) :
    t.insert key value = t :=
  ext (putEntry_of_mem t.nodup (get?_eq_some_iff.mp found))

theorem get?_map (f : α → β) (t : Table α) (key : String) : (t.map f).get? key = (t.get? key).map f :=
  lookup_map (fun _ => f) t.entries key

@[simp] theorem keys_map (f : α → β) (t : Table α) : (t.map f).keys = t.keys := by
  simp [keys, map, Function.comp_def]

theorem putEntry_map (f : α → β) (key : String) (value : α) (entries : List (String × α)) :
    putEntry key (f value) (entries.map (fun entry => (entry.1, f entry.2))) =
      (putEntry key value entries).map (fun entry => (entry.1, f entry.2)) := by
  induction entries with
  | nil => rfl
  | cons entry rest ih =>
    rw [List.map_cons, putEntry, putEntry, ih]
    split <;> rfl

theorem map_insertNew (f : α → β) (t : Table α) (key : String) (value : α) :
    (t.insertNew key value).map f = (t.map f).insertNew key (f value) := by
  unfold insertNew contains
  rw [get?_map, Option.isSome_map]
  split
  next => rfl
  next => exact ext (putEntry_map f key value t.entries).symm

theorem get?_modify (t : Table α) (key : String) (f : α → α) (other : String) :
    (t.modify key f).get? other = if other = key then (t.get? other).map f else t.get? other := by
  have read := lookup_map (fun k v => if k = key then f v else v) t.entries other
  unfold get? modify
  rw [read]
  by_cases same : other = key
  · simp [same]
  · simp [same]

@[simp] theorem keys_modify (t : Table α) (key : String) (f : α → α) : (t.modify key f).keys = t.keys := by
  simp [keys, modify, Function.comp_def]

theorem get?_filter (keep : String → α → Bool) (t : Table α) (key : String) (value : α) :
    (t.filter keep).get? key = some value ↔ t.get? key = some value ∧ keep key value := by
  simp [get?_eq_some_iff, filter]

/-- Entries with distinct keys are written as they are. -/
theorem entries_ofList {entries : List (String × α)} (nodup : (entries.map Prod.fst).Nodup) :
    (ofList entries).entries = entries := by
  have written : ∀ (rest : List (String × α)) (t : Table α), ((t.entries ++ rest).map Prod.fst).Nodup →
      (rest.foldl (fun t entry => t.insert entry.1 entry.2) t).entries = t.entries ++ rest := by
    intro rest
    induction rest with
    | nil => simp
    | cons entry rest ih =>
      intro t distinct
      have fresh : entry.1 ∉ t.keys := by
        rw [List.map_append, List.map_cons, List.nodup_append] at distinct
        exact fun known => distinct.2.2 entry.1 known entry.1 List.mem_cons_self rfl
      have entriesNow := entries_insert_of_not_mem entry.2 fresh
      rw [List.foldl_cons, ih, entriesNow, List.append_assoc, List.singleton_append]
      rw [entriesNow, List.append_assoc]
      exact distinct
  exact written entries empty (by simpa [empty] using nodup)

theorem ofList_entries (t : Table α) : ofList t.entries = t := ext (entries_ofList t.nodup)

private theorem eq_map_of_keys {entries : List (String × α)} {items : List β} {key : β → String} {value : β → α}
    (keys : entries.map Prod.fst = items.map key)
    (values : ∀ entry ∈ entries, ∀ x ∈ items, entry.1 = key x → entry.2 = value x) :
    entries = items.map (fun x => (key x, value x)) := by
  induction entries generalizing items with
  | nil =>
    cases items with
    | nil => rfl
    | cons x items => cases keys
  | cons entry rest ih =>
    cases items with
    | nil => cases keys
    | cons x items =>
      obtain ⟨first, later⟩ := List.cons.inj keys
      rw [List.map_cons, ← ih later (fun e member y listed => values e (.tail _ member) y (.tail _ listed)), ← first,
        ← values entry List.mem_cons_self x List.mem_cons_self first]

/-- A table is known from its keys and from what stands under them. -/
theorem entries_eq_map {t : Table α} {items : List β} {key : β → String} {value : β → α} (keys : t.keys = items.map key)
    (stored : ∀ x ∈ items, t.get? (key x) = some (value x)) : t.entries = items.map (fun x => (key x, value x)) := by
  refine eq_map_of_keys keys (fun entry member x listed same => ?_)
  have read := get?_eq_some_iff.mpr member
  rw [same, stored x listed] at read
  exact (Option.some.inj read).symm

private theorem mem_keys_foldl_insert (entries : List (String × α)) (t : Table α) {key : String} :
    key ∈ (entries.foldl (fun t entry => t.insert entry.1 entry.2) t).keys ↔ key ∈ t.keys ∨ key ∈ entries.map Prod.fst := by
  induction entries generalizing t with
  | nil => simp
  | cons entry rest ih =>
    rw [List.foldl_cons, ih, mem_keys_insert, List.map_cons, List.mem_cons, or_assoc, or_left_comm]

theorem mem_keys_ofList {entries : List (String × α)} {key : String} :
    key ∈ (ofList entries).keys ↔ key ∈ entries.map Prod.fst := by
  rw [ofList, mem_keys_foldl_insert]
  exact or_iff_right List.not_mem_nil

private theorem mem_of_get?_foldl_insert (entries : List (String × α)) (t : Table α) {key : String} {value : α}
    (found : (entries.foldl (fun t entry => t.insert entry.1 entry.2) t).get? key = some value) :
    t.get? key = some value ∨ (key, value) ∈ entries := by
  induction entries generalizing t with
  | nil => exact .inl found
  | cons entry rest ih =>
    rcases ih _ found with before | later
    · rw [get?_insert] at before
      split at before
      next same =>
        cases before
        exact .inr (same ▸ List.mem_cons_self)
      next => exact .inl before
    · exact .inr (List.mem_cons_of_mem _ later)

/-- A value comes from one of the entries. -/
theorem mem_of_get?_ofList {entries : List (String × α)} {key : String} {value : α}
    (found : (ofList entries).get? key = some value) : (key, value) ∈ entries :=
  (mem_of_get?_foldl_insert entries empty found).resolve_left nofun

theorem forall_mem_values_iff {t : Table α} {p : α → Prop} :
    (∀ value ∈ t.values, p value) ↔ ∀ key value, t.get? key = some value → p value := by
  simp only [mem_values_iff, forall_exists_index]
  exact ⟨fun all key value => all value key, fun all value key => all key value⟩

end Table
end DspPatch
