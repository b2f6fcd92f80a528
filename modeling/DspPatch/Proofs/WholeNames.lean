import DspPatch.Proofs.Names
import Mathlib.Data.List.SplitBy

/-!
Replacing whole names. A text falls into its maximal runs of name characters and the single characters between them, in one
way only (`segments_iff_splitBy`). Replacing a name puts the replacement into the place of the runs that are the name and
keeps the rest (`replaceNameFrom_segments`). The scan does what a search for one occurrence after the other does, which
looks at the text written so far to tell whether an occurrence stands alone, and that search comes to an end
(`nameSearch_iff`).
-/
namespace DspPatch.Text

/-- A run of name characters. -/
def IsRun (segment : List Char) : Prop := segment ≠ [] ∧ ∀ c ∈ segment, isNameChar c = true

/-- A run, or a character that is in no run. -/
def IsSegment (segment : List Char) : Prop := IsRun segment ∨ ∃ c, segment = [c] ∧ isNameChar c = false

/-- The maximal runs of name characters of a text and the characters between them, in order. -/
structure Segments (text : List Char) (segments : List (List Char)) : Prop where
  whole : segments.flatten = text
  kinds : ∀ segment ∈ segments, IsSegment segment
  maximal : segments.IsChain (fun a b => ¬(IsRun a ∧ IsRun b))

theorem IsSegment.ne_nil {segment : List Char} (kind : IsSegment segment) : segment ≠ [] := by
  rcases kind with run | ⟨c, rfl, _⟩
  · exact run.1
  · exact List.cons_ne_nil c []

/-- Any of its characters tells whether a segment is a run. -/
theorem IsSegment.isRun_iff {segment : List Char} (kind : IsSegment segment) {c : Char} (member : c ∈ segment) :
    IsRun segment ↔ isNameChar c = true := by
  rcases kind with run | ⟨d, rfl, other⟩
  · exact iff_of_true run (run.2 c member)
  · obtain rfl := List.mem_singleton.mp member
    exact iff_of_false (fun run => Bool.false_ne_true (other.symm.trans (run.2 c member))) (by simp [other])

/-- Two characters next to each other are in one segment if both are name characters. -/
def sameRun (a b : Char) : Bool := isNameChar a && isNameChar b

theorem isRun_of_isChain {a b : Char} {rest : List Char}
    (chain : (a :: b :: rest).IsChain (fun x y => sameRun x y = true)) : IsRun (a :: b :: rest) := by
  refine ⟨List.cons_ne_nil _ _, ?_⟩
  induction rest generalizing a b with
  | nil => simpa [sameRun] using chain
  | cons c rest ih =>
    obtain ⟨both, chain⟩ := List.isChain_cons_cons.mp chain
    exact List.forall_mem_cons.mpr ⟨(Bool.and_eq_true_iff.mp both).1, ih chain⟩

theorem isSegment_iff {segment : List Char} :
    IsSegment segment ↔ segment ≠ [] ∧ segment.IsChain (fun a b => sameRun a b = true) := by
  constructor
  · intro kind
    refine ⟨kind.ne_nil, ?_⟩
    rcases kind with run | ⟨c, rfl, _⟩
    · refine List.isChain_iff_getElem.mpr (fun i inside => ?_)
      exact Bool.and_eq_true_iff.mpr ⟨run.2 _ (List.getElem_mem _), run.2 _ (List.getElem_mem _)⟩
    · exact List.isChain_singleton c
  · rintro ⟨nonempty, chain⟩
    cases segment with
    | nil => exact absurd rfl nonempty
    | cons a rest =>
      cases rest with
      | cons b rest => exact .inl (isRun_of_isChain chain)
      | nil =>
        cases kind : isNameChar a with
        | true => exact .inl ⟨nonempty, by simpa using kind⟩
        | false => exact .inr ⟨a, rfl, kind⟩

/-- Where two segments meet, one of them is no run. -/
theorem not_both_runs_iff {a b : List Char} (left : IsSegment a) (right : IsSegment b) :
    ¬(IsRun a ∧ IsRun b) ↔ ∃ ha hb, sameRun (a.getLast ha) (b.head hb) = false := by
  rw [left.isRun_iff (List.getLast_mem left.ne_nil), right.isRun_iff (List.head_mem right.ne_nil), ← Bool.and_eq_true_iff,
    Bool.not_eq_true]
  exact ⟨fun apart => ⟨left.ne_nil, right.ne_nil, apart⟩, fun ⟨_, _, apart⟩ => apart⟩

/-- There is one way to cut a text into segments. -/
theorem segments_iff_splitBy {text : List Char} {segments : List (List Char)} :
    Segments text segments ↔ text.splitBy sameRun = segments := by
  have meet (kinds : ∀ segment ∈ segments, IsSegment segment) :
      segments.IsChain (fun a b => ¬(IsRun a ∧ IsRun b)) ↔
        segments.IsChain (fun a b => ∃ ha hb, sameRun (a.getLast ha) (b.head hb) = false) := by
    rw [List.isChain_iff_getElem, List.isChain_iff_getElem]
    exact forall₂_congr (fun i inside =>
      not_both_runs_iff (kinds _ (List.getElem_mem _)) (kinds _ (List.getElem_mem _)))
  rw [List.splitBy_eq_iff]
  constructor
  · rintro ⟨rfl, kinds, maximal⟩
    exact ⟨rfl, fun empty => (kinds [] empty).ne_nil rfl, fun segment member => (isSegment_iff.mp (kinds segment member)).2,
      (meet kinds).mp maximal⟩
  · rintro ⟨rfl, nonempty, chains, apart⟩
    have kinds : ∀ segment ∈ segments, IsSegment segment := fun segment member =>
      isSegment_iff.mpr ⟨fun empty => nonempty (empty ▸ member), chains segment member⟩
    exact ⟨rfl, kinds, (meet kinds).mpr apart⟩

instance (text : List Char) (segments : List (List Char)) : Decidable (Segments text segments) :=
  decidable_of_iff _ segments_iff_splitBy.symm

section Scan
variable {name replacement : List Char}

/-- Nothing but whole runs is replaced. -/
theorem replaceNameFrom_segments (some_name : name ≠ []) (letters : ∀ c ∈ name, isNameChar c = true) {text : List Char}
    {segments : List (List Char)} (cut : Segments text segments) : replaceNameFrom name replacement none 0 text =
      segments.flatMap (fun segment => if segment = name then replacement else segment) := by
  obtain ⟨rfl, kinds, maximal⟩ := cut
  have single {c : Char} (other : isNameChar c = false) (rest : List Char) :
      replaceNameFrom name replacement none 0 (c :: rest) = c :: replaceNameFrom name replacement none 0 rest := by
    have scan : replaceNameFrom name replacement none 0 ([] ++ c :: rest) = _ :=
      replaceNameFrom_append_cons some_name letters other (Nat.zero_le _) rest
    exact scan
  induction segments with
  | nil => rfl
  | cons segment rest ih =>
    obtain ⟨kind, kinds⟩ := List.forall_mem_cons.mp kinds
    rw [List.flatMap_cons, ← ih kinds maximal.tail, List.flatten_cons]
    rcases kind with run | ⟨c, rfl, other⟩
    · cases rest with
      | nil => simp [replaceNameFrom_run some_name letters run.2, replaceNameFrom]
      | cons next rest =>
        -- A run is maximal, so what follows it is a character that ends every name.
        rcases kinds next List.mem_cons_self with further | ⟨c, rfl, other⟩
        · exact absurd ⟨run, further⟩ (List.isChain_cons_cons.mp maximal).1
        · rw [List.flatten_cons, List.singleton_append,
            replaceNameFrom_append_cons some_name letters other (Nat.zero_le _), single other,
            replaceNameFrom_run some_name letters run.2]
    · have different : [c] ≠ name := by
        rintro rfl
        exact Bool.false_ne_true (other.symm.trans (letters c List.mem_cons_self))
      rw [if_neg different, List.singleton_append, single other, List.singleton_append]

/-! ## One occurrence after the other -/

/-- What an occurrence is replaced by, from the characters on its two sides. -/
def insertion (name replacement : List Char) (before after : Option Char) : List Char :=
  if isBoundary before && isBoundary after then replacement else name

/-- The search for a name comes to an end with `result`, where `written` is the result so far and `rest` is still to be
    searched. Each round takes the first occurrence in the rest, and asks the last character written whether a name
    could begin there. -/
inductive NameSearch (name replacement : List Char) : List Char → List Char → List Char → Prop where
  | absent {written rest : List Char} (absent : ¬name <:+: rest) : NameSearch name replacement written rest (written ++ rest)
  | found {written rest before after result : List Char} (occurs : rest = before ++ name ++ after)
      (first : ∀ i < before.length, ¬name <+: rest.drop i)
      (next : NameSearch name replacement
        (written ++ before ++ insertion name replacement (written ++ before).getLast? after.head?) after result) :
      NameSearch name replacement written rest result

theorem replaceNameFrom_skip (last : Option Char) (passed rest : List Char) :
    replaceNameFrom name replacement last passed.length (passed ++ rest) =
      replaceNameFrom name replacement last 0 rest := by
  induction passed with
  | nil => rfl
  | cons c passed ih => exact ih

theorem replaceNameFrom_of_absent {rest : List Char} (last : Option Char) (absent : ¬name <:+: rest) :
    replaceNameFrom name replacement last 0 rest = rest := by
  induction rest generalizing last with
  | nil => rfl
  | cons c rest ih =>
    rw [List.infix_cons_iff, not_or] at absent
    rw [replaceNameFrom, if_neg (fun here => absent.1 (List.isPrefixOf_iff_prefix.mp here)), ih _ absent.2]

theorem exists_first_occurrence {rest : List Char} (present : name <:+: rest) :
    ∃ before after, rest = before ++ name ++ after ∧ ∀ i < before.length, ¬name <+: rest.drop i := by
  induction rest with
  | nil => exact ⟨[], [], by simpa using present, nofun⟩
  | cons c rest ih =>
    by_cases here : name <+: c :: rest
    · obtain ⟨after, whole⟩ := here
      exact ⟨[], after, whole.symm, nofun⟩
    · obtain ⟨before, after, whole, first⟩ := ih ((List.infix_cons_iff.mp present).resolve_left here)
      refine ⟨c :: before, after, by rw [whole]; rfl, fun i inside => ?_⟩
      cases i with
      | zero => exact here
      | succ i => exact first i (Nat.lt_of_succ_lt_succ inside)

variable (some_name : name ≠ [])
include some_name

/-- One round: the scan copies what stands before the first occurrence, decides on it and goes on behind it. -/
theorem replaceNameFrom_first {before after : List Char} (last : Option Char)
    (first : ∀ i < before.length, ¬name <+: (before ++ name ++ after).drop i) :
    let inserted := insertion name replacement (before.getLast?.or last) after.head?
    replaceNameFrom name replacement last 0 (before ++ name ++ after) = before ++ (inserted ++
      replaceNameFrom name replacement (inserted.getLast?.or (before.getLast?.or last)) 0 after) := by
  induction before generalizing last with
  | nil =>
    cases name with
    | nil => exact absurd rfl some_name
    | cons c name =>
      have here : (c :: name).isPrefixOf (c :: (name ++ after)) = true :=
        List.isPrefixOf_iff_prefix.mpr (List.prefix_append (c :: name) after)
      have next : (name ++ after).drop name.length = after := List.drop_left
      simp only [List.nil_append, List.cons_append, replaceNameFrom, if_pos here, List.length_cons, Nat.add_sub_cancel,
        next, replaceNameFrom_skip, List.getLast?_nil, Option.none_or]
      rfl
  | cons c before ih =>
    have away : ¬name.isPrefixOf (c :: (before ++ name ++ after)) = true := fun here =>
      first 0 (Nat.zero_lt_succ _) (List.isPrefixOf_iff_prefix.mp here)
    have later := ih (some c) (fun i inside => first (i + 1) (Nat.succ_lt_succ inside))
    have same : (c :: before).getLast?.or last = before.getLast?.or (some c) := by
      rw [List.getLast?_cons]
      cases before.getLast? <;> rfl
    rw [same]
    simp only [List.cons_append, replaceNameFrom, if_neg away, later]

theorem nameSearch_replaceNameFrom (written rest : List Char) : NameSearch name replacement written rest
    (written ++ replaceNameFrom name replacement written.getLast? 0 rest) := by
  -- What is left to search gets shorter in each round, since the name has a character.
  induction length : rest.length using Nat.strongRecOn generalizing written rest with
  | ind n ih =>
    by_cases present : name <:+: rest
    · obtain ⟨before, after, whole, first⟩ := exists_first_occurrence present
      have shorter : after.length < n := by
        have some_char := List.length_pos_iff.mpr some_name
        rw [← length, whole, List.length_append, List.length_append]
        omega
      refine .found whole first ?_
      have next := ih after.length shorter
        (written ++ before ++ insertion name replacement (written ++ before).getLast? after.head?) after rfl
      subst whole
      rw [replaceNameFrom_first some_name _ first]
      simpa only [List.getLast?_append, List.append_assoc, Option.or_assoc] using next
    · rw [replaceNameFrom_of_absent _ present]
      exact .absent present

omit some_name in
/-- The search has one result. -/
theorem NameSearch.unique {written rest result other : List Char} (one : NameSearch name replacement written rest result)
    (two : NameSearch name replacement written rest other) : result = other := by
  induction one generalizing other with
  | absent absent =>
    cases two with
    | absent => rfl
    | found occurs => exact absurd ⟨_, _, occurs.symm⟩ absent
  | @found written rest before after result occurs first next ih =>
    cases two with
    | absent absent => exact absurd ⟨_, _, occurs.symm⟩ absent
    | @found _ _ before' after' _ occurs' first' next' =>
      have here {a b : List Char} (occurs : rest = a ++ name ++ b) : name <+: rest.drop a.length := by
        rw [occurs, List.append_assoc, List.drop_left]
        exact List.prefix_append name b
      have place : before.length = before'.length := by
        refine Nat.le_antisymm (Nat.le_of_not_lt (fun less => ?_)) (Nat.le_of_not_lt (fun less => ?_))
        · exact first _ less (here occurs')
        · exact first' _ less (here occurs)
      rw [occurs, List.append_assoc, List.append_assoc] at occurs'
      obtain ⟨rfl, follows⟩ := List.append_inj occurs' place
      obtain rfl := List.append_cancel_left follows
      exact ih next'

theorem nameSearch_iff {text result : List Char} : NameSearch name replacement [] text result ↔
    result = replaceNameFrom name replacement none 0 text := by
  have ends : NameSearch name replacement [] text (replaceNameFrom name replacement none 0 text) :=
    nameSearch_replaceNameFrom some_name [] text
  exact ⟨fun search => search.unique ends, fun same => same ▸ ends⟩

end Scan

/-- Whole names are replaced and nothing else. The text is cut into maximal runs of name characters and the characters
    between them in exactly one way, the runs that are the name give way to the replacement, and this is the result that
    the search for one occurrence after the other ends with. -/
theorem replaceName_exact {name : String} (named : isNamePart name = true) (text replacement : String) :
    (∃! segments, Segments text.toList segments) ∧
    (∀ segments, Segments text.toList segments → (replaceName text name replacement).toList =
      segments.flatMap (fun segment => if segment = name.toList then replacement.toList else segment)) ∧
    ∀ result : String, NameSearch name.toList replacement.toList [] text.toList result.toList ↔
      result = replaceName text name replacement := by
  obtain ⟨some_name, letters⟩ := isNamePart_iff.mp named
  refine ⟨⟨_, segments_iff_splitBy.mpr rfl, fun other cut => (segments_iff_splitBy.mp cut).symm⟩, fun segments cut => ?_,
    fun result => ?_⟩
  · rw [replaceName, String.toList_ofList]
    exact replaceNameFrom_segments some_name letters cut
  · rw [nameSearch_iff some_name, replaceName, ← String.toList_inj, String.toList_ofList]

/-- Occurrences that overlap each other or stand inside a longer run are kept, and inserted text is not searched. -/
theorem replaceName_exact_overlapping : isNamePart "a_a" = true ∧
    replaceName "a_a_a é(a_a)a_a" "a_a" "a_a+b" = "a_a_a é(a_a+b)a_a+b" := by
  refine ⟨by decide, String.toList_inj.mp ?_⟩
  exact ((replaceName_exact (by decide) "a_a_a é(a_a)a_a" "a_a+b").2.1
    ["a_a_a".toList, " ".toList, "é".toList, "(".toList, "a_a".toList, ")".toList, "a_a".toList] (by decide)).trans
      (by decide)

end DspPatch.Text
