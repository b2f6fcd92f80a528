import Mathlib.Data.List.Infix
import Mathlib.Data.List.Nodup

/-!
Precedence in a list: `[a, b].Sublist order` says that `a` stands before `b`. In a list without repetitions this is the
order of the places.
-/
namespace DspPatch
variable {α : Type} {order : List α} {a b c : α}

theorem pair_sublist_cons_iff : [a, b].Sublist (c :: order) ↔ (a = c ∧ b ∈ order) ∨ [a, b].Sublist order := by
  constructor
  · intro before
    cases before with
    | cons _ later => exact .inr later
    | cons_cons _ later => exact .inl ⟨rfl, List.singleton_sublist.mp later⟩
  · rintro (⟨rfl, member⟩ | later)
    · exact (List.singleton_sublist.mpr member).cons_cons a
    · exact later.cons c

theorem pair_sublist_concat_iff : [a, b].Sublist (order ++ [c]) ↔ [a, b].Sublist order ∨ (a ∈ order ∧ b = c) := by
  induction order with
  | nil => simp
  | cons first rest ih =>
    rw [List.cons_append, pair_sublist_cons_iff, pair_sublist_cons_iff, ih, List.mem_append, List.mem_singleton,
      List.mem_cons]
    tauto

/-- What nothing precedes stands first. -/
theorem head?_eq_of_first (member : a ∈ order) (first : ∀ b, ¬[b, a].Sublist order) : order.head? = some a := by
  cases order with
  | nil => cases member
  | cons h rest =>
    rcases List.mem_cons.mp member with rfl | later
    · rfl
    · exact absurd (pair_sublist_cons_iff.mpr (.inl ⟨rfl, later⟩)) (first h)

theorem mem_of_pair_sublist_append {before later : List α} (nodup : (before ++ a :: later).Nodup)
    (pair : [a, b].Sublist (before ++ a :: later)) : b ∈ later := by
  induction before with
  | nil =>
    rcases pair_sublist_cons_iff.mp pair with ⟨_, member⟩ | further
    · exact member
    · exact further.subset (by simp)
  | cons first rest ih =>
    rw [List.cons_append, List.nodup_cons] at nodup
    rcases pair_sublist_cons_iff.mp pair with ⟨rfl, _⟩ | further
    · exact absurd (by simp) nodup.1
    · exact ih nodup.2 further

theorem mem_before_of_pair_sublist {before later : List α} (nodup : (before ++ b :: later).Nodup)
    (pair : [a, b].Sublist (before ++ b :: later)) : a ∈ before := by
  induction before with
  | nil =>
    have fresh : b ∉ later := (List.nodup_cons.mp nodup).1
    rcases pair_sublist_cons_iff.mp pair with ⟨_, member⟩ | further
    · exact absurd member fresh
    · exact absurd (further.subset (by simp)) fresh
  | cons first before ih =>
    rcases pair_sublist_cons_iff.mp pair with ⟨rfl, _⟩ | further
    · exact List.mem_cons_self
    · exact List.mem_cons_of_mem _ (ih (List.nodup_cons.mp nodup).2 further)

/-- The last element that passes a test. -/
theorem find?_reverse_eq_some_iff {test : α → Bool} (nodup : order.Nodup) (member : a ∈ order) :
    order.reverse.find? test = some a ↔ test a = true ∧ ∀ b, [a, b].Sublist order → test b = false := by
  obtain ⟨before, later, rfl⟩ := List.append_of_mem member
  have after_iff : ∀ b, [a, b].Sublist (before ++ a :: later) ↔ b ∈ later := by
    refine fun b => ⟨mem_of_pair_sublist_append nodup, fun listed => ?_⟩
    exact (List.Sublist.cons_cons a (List.singleton_sublist.mpr listed)).trans (List.sublist_append_right _ _)
  have split : (before ++ a :: later).reverse = later.reverse ++ a :: before.reverse := by simp
  rw [split, List.find?_eq_some_iff_append]
  simp only [after_iff]
  refine and_congr_right (fun passes => ⟨?_, fun fails => ?_⟩)
  · rintro ⟨rest, others, same, fails⟩ b listed
    rw [List.nodup_middle, List.nodup_cons, List.mem_append, not_or] at nodup
    rw [List.append_cons_inj_of_notMem (by simpa using nodup.1.2) (by simpa using nodup.1.1)] at same
    simpa using fails b (same.1 ▸ List.mem_reverse.mpr listed)
  · exact ⟨later.reverse, before.reverse, rfl, fun b listed => by simpa using fails b (List.mem_reverse.mp listed)⟩

theorem pair_sublist_of_getElem? {i j : Nat} (aPlace : order[i]? = some a) (bPlace : order[j]? = some b) (less : i < j) :
    [a, b].Sublist order := by
  induction order generalizing i j with
  | nil => simp at aPlace
  | cons h rest ih =>
    cases j with
    | zero => omega
    | succ j =>
      rw [List.getElem?_cons_succ] at bPlace
      cases i with
      | zero =>
        rw [List.getElem?_cons_zero, Option.some.injEq] at aPlace
        exact pair_sublist_cons_iff.mpr (.inl ⟨aPlace.symm, List.mem_of_getElem? bPlace⟩)
      | succ i =>
        rw [List.getElem?_cons_succ] at aPlace
        exact pair_sublist_cons_iff.mpr (.inr (ih aPlace bPlace (by omega)))

/-- A filter keeps the order of what it keeps. -/
theorem pair_sublist_filter_iff {keep : α → Bool} :
    [a, b].Sublist (order.filter keep) ↔ [a, b].Sublist order ∧ keep a = true ∧ keep b = true := by
  constructor
  · intro before
    refine ⟨before.trans List.filter_sublist, ?_, ?_⟩
    · exact (List.mem_filter.mp (before.subset (by simp))).2
    · exact (List.mem_filter.mp (before.subset (by simp))).2
  · rintro ⟨before, aKept, bKept⟩
    have := before.filter keep
    rwa [List.filter_cons_of_pos aKept, List.filter_cons_of_pos bKept, List.filter_nil] at this

theorem pair_sublist_iff_idxOf_lt [DecidableEq α] (nodup : order.Nodup) :
    [a, b].Sublist order ↔ b ∈ order ∧ order.idxOf a < order.idxOf b := by
  induction order with
  | nil => simp
  | cons first rest ih =>
    rw [List.nodup_cons] at nodup
    rw [pair_sublist_cons_iff, ih nodup.2]
    by_cases bFirst : first = b
    · subst bFirst
      simp [nodup.1]
    · rw [List.idxOf_cons_ne _ bFirst, List.mem_cons, or_iff_right (Ne.symm bFirst)]
      by_cases aFirst : first = a
      · subst aFirst
        rw [List.idxOf_cons_self]
        constructor
        · rintro (⟨_, member⟩ | ⟨member, _⟩)
          · exact ⟨member, Nat.succ_pos _⟩
          · exact ⟨member, Nat.succ_pos _⟩
        · rintro ⟨member, _⟩
          exact .inl ⟨rfl, member⟩
      · rw [List.idxOf_cons_ne _ aFirst, Nat.succ_lt_succ_iff]
        constructor
        · rintro (⟨same, _⟩ | later)
          · exact absurd same.symm aFirst
          · exact later
        · exact .inr

/-- What precedes a member of the first part of an ordered list is in that part, too. -/
theorem mem_of_pair_sublist [DecidableEq α] (nodup : order.Nodup) {done rest : List α}
    (ordered : (done ++ rest).Sublist order) (before : [a, b].Sublist order) (member : a ∈ done ++ rest) (bDone : b ∈ done) :
    a ∈ done := by
  refine (List.mem_append.mp member).resolve_right (fun later => ?_)
  have after : [b, a].Sublist order :=
    ((List.singleton_sublist.mpr bDone).append (List.singleton_sublist.mpr later)).trans ordered
  have less := ((pair_sublist_iff_idxOf_lt nodup).mp before).2
  have more := ((pair_sublist_iff_idxOf_lt nodup).mp after).2
  omega

end DspPatch
