import DspPatch.Json.Decode
import DspPatch.Proofs.Json.RoundTrip
import DspPatch.Proofs.Outcome

/-!
Decoders on the documents that are written for tables, lists and records: each part is read where it was written, so what
is read is the data that was written. A decoded table holds decoded values only.
-/
namespace DspPatch.Json
variable {α β : Type}

theorem mapM_eq_some_iff {items : List α} {f : α → Option β} {results : List β} :
    items.mapM f = some results ↔ List.Forall₂ (fun a b => f a = some b) items results := by
  induction items generalizing results with
  | nil =>
    rw [List.mapM_nil, List.forall₂_nil_left_iff]
    exact ⟨fun same => (Option.some.inj same).symm, fun same => same ▸ rfl⟩
  | cons a rest ih =>
    rw [List.mapM_cons]
    constructor
    · intro made
      obtain ⟨b, first, tail⟩ := Option.bind_eq_some_iff.mp made
      obtain ⟨bs, later, same⟩ := Option.bind_eq_some_iff.mp tail
      cases same
      exact .cons first (ih.mp later)
    · intro all
      cases all with
      | @cons _ b _ bs first later =>
        exact Option.bind_eq_some_iff.mpr ⟨b, first, Option.bind_eq_some_iff.mpr ⟨bs, ih.mpr later, rfl⟩⟩

theorem mapM_map_eq_some {γ : Type} {items : List α} {encode : α → γ} {decode : γ → Option β} {result : α → β}
    (each : ∀ a ∈ items, decode (encode a) = some (result a)) :
    (items.map encode).mapM decode = some (items.map result) := by
  rw [mapM_eq_some_iff, List.forall₂_map_left_iff, List.forall₂_map_right_iff, List.forall₂_same]
  exact each

section Containers
variable {room : Nat} {decode : Decoder α} {encode : α → Value}

theorem list_document {items : List α} (each : ∀ a ∈ items, decode room (encode a).document = some a) :
    decode.list (room + 1) (Value.array (items.map encode)).document = some items := by
  rw [Value.document, Value.itemDocuments_eq_map, List.map_map, Decoder.list]
  exact (mapM_map_eq_some each).trans (congrArg some (List.map_id' items))

theorem table_document {t : Table α} (each : ∀ a ∈ t.values, decode room (encode a).document = some a) :
    decode.table (room + 1) (Value.ofTable encode t).document = some t := by
  rw [Value.ofTable, Value.document, Value.memberDocuments_eq_map, List.map_map, Decoder.table]
  refine Option.bind_eq_some_iff.mpr ⟨t.entries, ?_, congrArg some t.ofList_entries⟩
  refine (mapM_map_eq_some (fun entry member => ?_)).trans (congrArg some (List.map_id' t.entries))
  exact Option.bind_eq_some_iff.mpr ⟨entry.1, rfl, Option.bind_eq_some_iff.mpr
    ⟨entry.2, each entry.2 (List.mem_map.mpr ⟨entry, member, rfl⟩), rfl⟩⟩

/-- A decoded table holds decoded values. -/
theorem exists_of_table {document : Document} {t : Table α} (isTable : decode.table room document = some t) :
    ∃ less, room = less + 1 ∧ ∀ a ∈ t.values, ∃ inner, decode less inner = some a := by
  unfold Decoder.table at isTable
  split at isTable
  next less members =>
    obtain ⟨entries, areEntries, same⟩ := Option.bind_eq_some_iff.mp isTable
    cases same
    refine ⟨less, rfl, fun a member => ?_⟩
    obtain ⟨key, found⟩ := Table.mem_values_iff.mp member
    obtain ⟨origin, -, isEntry⟩ :=
      exists_left_of_forall₂ (mapM_eq_some_iff.mp areEntries) (Table.mem_of_get?_ofList found)
    obtain ⟨_, -, tail⟩ := Option.bind_eq_some_iff.mp isEntry
    obtain ⟨_, isValue, same⟩ := Option.bind_eq_some_iff.mp tail
    cases same
    exact ⟨origin.2, isValue⟩
  next => cases isTable

end Containers

namespace Fields

/-- A record that was written has all its fields. -/
theorem ofDocument?_document {members : List (String × Value)} {names : List String} (all : members.map Prod.fst = names)
    (distinct : names.eraseDups = names) (lenient : Bool) (room : Nat) :
    ofDocument? names lenient (room + 1) (Value.object members).document =
      some ⟨false, members.map (fun member => (member.1, member.2.document)), room⟩ := by
  have declared : (members.map (fun member => (member.1, member.2.document))).filter (fun entry => names.contains entry.1) =
      members.map (fun member => (member.1, member.2.document)) := by
    refine List.filter_eq_self.mpr (fun entry listed => ?_)
    obtain ⟨member, isMember, rfl⟩ := List.mem_map.mp listed
    rw [List.contains_iff_mem, ← all]
    exact List.mem_map.mpr ⟨member, isMember, rfl⟩
  rw [Value.document, Value.memberDocuments_eq_map, ofDocument?]
  refine Option.bind_eq_some_iff.mpr ⟨_, mapM_map_eq_some (fun member _ => rfl), ?_⟩
  have keys : (members.map (fun member => (member.1, member.2.document))).map Prod.fst = names := by
    rw [List.map_map]
    exact all
  dsimp only
  rw [declared, keys, distinct]
  have size : (members.map (fun member => (member.1, member.2.document))).length = names.length := by
    rw [← all, List.length_map, List.length_map]
  simp [size]

/-- The fields of a record are nested one deeper. -/
theorem room_of_ofDocument? {names : List String} {lenient : Bool} {room : Nat} {document : Document} {fields : Fields}
    (areFields : ofDocument? names lenient room document = some fields) : room = fields.room + 1 := by
  unfold ofDocument? at areFields
  split at areFields
  next less members =>
    obtain ⟨entries, -, tail⟩ := Option.bind_eq_some_iff.mp areFields
    dsimp only at tail
    split at tail
    next => cases tail
    next =>
      split at tail
      next => cases tail
      next =>
        cases tail
        rfl
  next =>
    split at areFields
    next => cases areFields
    next =>
      cases areFields
      rfl
  next => cases areFields

end Fields
end DspPatch.Json
