import DspPatch.Proofs.Draft.Changes

/-!
Tags of node types. A type without tag gets the first candidate that no other type has, so types never share a tag, whatever
tags are asked for one after the other and whatever steps a draft goes through (`Passes.tagsDistinct`).
-/
namespace DspPatch
namespace Symbols
variable {s t : Symbols}

/-- No two types have the same tag. -/
def TagsDistinct (s : Symbols) : Prop :=
  ∀ a b tag, s.at? (.typeTag a) = some tag → s.at? (.typeTag b) = some tag → a = b

theorem TagsDistinct.attachTypeTag (distinct : s.TagsDistinct) (type : String) : (s.attachTypeTag type).2.TagsDistinct := by
  unfold Symbols.attachTypeTag
  cases known : s.typeTags.get? type with
  | some tag => exact distinct
  | none =>
    have free : ∀ other, s.typeTags.get? other ≠ some (s.freeTypeTag type) := by
      intro other found
      exact s.freeTypeTag_not_mem type (Table.mem_values_iff.mpr ⟨other, found⟩)
    intro a b tag first second
    simp only [at?, Table.get?_insert] at first second
    split at first <;> split at second
    next isA isB => rw [isA, isB]
    next =>
      cases first
      exact absurd second (free b)
    next =>
      cases second
      exact absurd first (free a)
    next => exact distinct a b tag first second

/-- Every tag is a name that begins with `n_`. -/
def TagsShaped (s : Symbols) : Prop :=
  ∀ type tag, s.at? (.typeTag type) = some tag → Text.isNamePart tag = true ∧ "n_".toList <+: tag.toList

theorem TagsShaped.attachTypeTag (shaped : s.TagsShaped) (type : String) : (s.attachTypeTag type).2.TagsShaped := by
  unfold Symbols.attachTypeTag
  cases known : s.typeTags.get? type with
  | some tag => exact shaped
  | none =>
    obtain ⟨taken, _, candidate, _⟩ := s.freeTypeTag_searchStops type
    intro other tag stored
    simp only [at?, Table.get?_insert] at stored
    split at stored
    next =>
      cases stored
      refine ⟨SymbolRequest.isNamePart_freeTypeTag s type, ?_⟩
      rw [candidate, toList_typeTagCandidate]
      exact List.prefix_append _ _
    next => exact shaped other tag stored

/-! ## Calls one after the other -/

/-- Ask for the tags of types one after the other. Yields the types with the tags they got, and the symbols in the end. -/
def attachTypeTags (s : Symbols) : List String → List (String × String) × Symbols
  | [] => ([], s)
  | type :: rest =>
    let next := (s.attachTypeTag type).2
    ((type, (s.attachTypeTag type).1) :: (next.attachTypeTags rest).1, (next.attachTypeTags rest).2)

/-- What every call keeps is kept by all of them. -/
theorem attachTypeTags_keeps {kept : Symbols → Prop} (step : ∀ s type, kept s → kept (s.attachTypeTag type).2)
    (start : kept s) (types : List String) : kept (s.attachTypeTags types).2 := by
  induction types generalizing s with
  | nil => exact start
  | cons type rest ih => exact ih (step s type start)

theorem types_attachTypeTags (s : Symbols) (types : List String) : (s.attachTypeTags types).1.map Prod.fst = types := by
  induction types generalizing s with
  | nil => rfl
  | cons type rest ih => exact congrArg (type :: ·) (ih _)

/-- After a call there are the tags that were there before and the one that was given. -/
theorem at?_attachTypeTag (s : Symbols) (first : String) {type tag : String} :
    (s.attachTypeTag first).2.at? (.typeTag type) = some tag ↔
      s.at? (.typeTag type) = some tag ∨ (type, tag) = (first, (s.attachTypeTag first).1) := by
  have assigns := s.attachTypeTag_assigns first
  rw [assigns.read]
  split
  next same =>
    cases same
    constructor
    · rintro ⟨⟩
      exact .inr rfl
    · rintro (old | new)
      · rw [assigns.known tag old]
      · cases new
        rfl
  next other =>
    refine ⟨.inl, fun stored => stored.elim id (fun new => ?_)⟩
    cases new
    exact absurd rfl other

theorem at?_attachTypeTags (s : Symbols) (types : List String) {type tag : String} :
    (s.attachTypeTags types).2.at? (.typeTag type) = some tag ↔
      s.at? (.typeTag type) = some tag ∨ (type, tag) ∈ (s.attachTypeTags types).1 := by
  induction types generalizing s with
  | nil => simp [attachTypeTags]
  | cons first rest ih =>
    show ((s.attachTypeTag first).2.attachTypeTags rest).2.at? (.typeTag type) = some tag ↔
      _ ∨ (type, tag) ∈ _ :: ((s.attachTypeTag first).2.attachTypeTags rest).1
    rw [ih, at?_attachTypeTag, List.mem_cons, or_assoc]

/-- A call answers with the tag that the type has, and otherwise with the candidate at which the search stops. -/
theorem attachTypeTag_answer (s : Symbols) (type : String) :
    s.typeTag type = .ok (s.attachTypeTag type).1 ∨ s.SearchStops type (s.attachTypeTag type).1 := by
  unfold attachTypeTag
  cases known : s.typeTags.get? type with
  | some tag => exact .inl (typeTag_eq_ok_iff.mpr known)
  | none => exact .inr (s.freeTypeTag_searchStops type)

/-- Starting without tags, whatever tags are asked for: every call gets an answer, from the tags that are there or by a search
    that stops; the tags in the end are those that were given; two calls get the same tag exactly if they ask for the same
    type; and every tag is a name that begins with `n_`. -/
theorem typeTags_injective_and_stable (s : Symbols) (untagged : s.typeTags = ∅) (types : List String) :
    (s.attachTypeTags types).1.map Prod.fst = types ∧
    (∀ earlier type, (s.attachTypeTags earlier).2.typeTag type = .ok ((s.attachTypeTags earlier).2.attachTypeTag type).1 ∨
      (s.attachTypeTags earlier).2.SearchStops type ((s.attachTypeTags earlier).2.attachTypeTag type).1) ∧
    (∀ type tag, (s.attachTypeTags types).2.typeTag type = .ok tag ↔ (type, tag) ∈ (s.attachTypeTags types).1) ∧
    (∀ a ∈ (s.attachTypeTags types).1, ∀ b ∈ (s.attachTypeTags types).1, a.1 = b.1 ↔ a.2 = b.2) ∧
    ∀ answer ∈ (s.attachTypeTags types).1, Text.isNamePart answer.2 = true ∧ "n_".toList <+: answer.2.toList := by
  have none : ∀ type tag, s.at? (.typeTag type) ≠ some tag := by
    intro type tag stored
    rw [at?, untagged] at stored
    cases stored
  have given (type tag : String) : (s.attachTypeTags types).2.at? (.typeTag type) = some tag ↔
      (type, tag) ∈ (s.attachTypeTags types).1 := by
    rw [at?_attachTypeTags]
    exact ⟨fun stored => stored.resolve_left (none type tag), .inr⟩
  have distinct : (s.attachTypeTags types).2.TagsDistinct :=
    attachTypeTags_keeps (fun _ type kept => kept.attachTypeTag type) (fun a _ tag stored => absurd stored (none a tag)) types
  have shaped : (s.attachTypeTags types).2.TagsShaped :=
    attachTypeTags_keeps (fun _ type kept => kept.attachTypeTag type) (fun a tag stored => absurd stored (none a tag)) types
  refine ⟨s.types_attachTypeTags types, fun earlier type => attachTypeTag_answer _ type,
    fun type tag => typeTag_eq_ok_iff.trans (given type tag), ?_, fun answer member => ?_⟩
  · rintro ⟨a, tagA⟩ first ⟨b, tagB⟩ second
    have storedA := (given a tagA).mpr first
    have storedB := (given b tagB).mpr second
    constructor
    · rintro rfl
      exact Option.some.inj (storedA.symm.trans storedB)
    · rintro rfl
      exact distinct a b tagA storedA storedB
  · exact shaped answer.1 answer.2 ((given answer.1 answer.2).mpr member)

/-- Types without name characters share a base with the type `t`, and `t_2` is the base of another. -/
theorem typeTags_injective_and_stable_colliding :
    (attachTypeTags ⟨∅, ∅, ∅, .empty "coldDspGroups", ∅, ∅⟩ ["+~", "*~", "t_2", "t", "*~"]).1 =
      [("+~", "n_t"), ("*~", "n_t_2"), ("t_2", "n_t_2_2"), ("t", "n_t_3"), ("*~", "n_t_2")] ∧
    ("*~" = "t_2" ↔ "n_t_2" = "n_t_2_2") :=
  ⟨by decide, (typeTags_injective_and_stable ⟨∅, ∅, ∅, .empty "coldDspGroups", ∅, ∅⟩ rfl
    ["+~", "*~", "t_2", "t", "*~"]).2.2.2.1 ("*~", "n_t_2") (by decide) ("t_2", "n_t_2_2") (by decide)⟩

theorem TagsDistinct.give (distinct : s.TagsDistinct) {request : SymbolRequest} {symbol : String}
    (given : request.give s = .ok (symbol, t)) : t.TagsDistinct := by
  -- Only one kind of request is about a tag; the others leave the slots of all tags alone.
  have others : (∀ type, SymbolSlot.typeTag type ≠ request.slot) → t.TagsDistinct := by
    intro other a b tag first second
    rw [(request.answered given).read, if_neg (other a)] at first
    rw [(request.answered given).read, if_neg (other b)] at second
    exact distinct a b tag first second
  cases request with
  | attachTypeTag type =>
    have same : (s.attachTypeTag type).2 = t := congrArg Prod.snd (Except.ok.inj given)
    exact same ▸ distinct.attachTypeTag type
  | _ => exact others (fun _ => nofun)

end Symbols

namespace Draft
variable {g : Graph} {w v : Workspace}

theorem Change.tagsDistinct (change : Change g w v) (distinct : w.symbols.TagsDistinct) : v.symbols.TagsDistinct := by
  cases change with
  | request request _ given => exact distinct.give given
  | _ => exact distinct

theorem Changes.tagsDistinct (changes : Changes g w v) (distinct : w.symbols.TagsDistinct) : v.symbols.TagsDistinct := by
  induction changes with
  | refl => exact distinct
  | tail _ change ih => exact change.tagsDistinct ih

end Draft

theorem Passes.tagsDistinct {input : BuildInput} {full : List String} (passes : Passes input full) :
    passes.finished.symbols.TagsDistinct := by
  have initial := (Symbols.ofGraph_yields _ _).of_eq_ok passes.allocates
  refine passes.changes.tagsDistinct (fun a _ tag tagged _ => ?_)
  obtain ⟨_, same⟩ := initial.only (.typeTag a) (by rw [tagged]; exact Option.some_ne_none tag)
  cases same

end DspPatch
