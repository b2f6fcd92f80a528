import DspPatch.Cycles
import DspPatch.Proofs.Table
import Mathlib.Data.List.Pairwise
import Mathlib.Logic.Relation

/-!
What holds at each moment of the depth-first walk. The invariant `Sound` speaks of the stack and of the visits: a label
that is being visited leads to all labels above it on the stack, every label on the stack leads back to one that is being
visited, and the low numbers of the visits bound from below what has been seen from there. Labels may be entered, low
numbers lowered, and visits ended that have seen a label below their own.
-/
namespace DspPatch.Cycles
open Relation
variable {labels : List String} {next : String → List String}

/-- `b` is one of the labels and follows `a`. -/
def Leads (labels : List String) (next : String → List String) (a b : String) : Prop := b ∈ next a ∧ b ∈ labels

/-- `b` is reached from `a`, in any number of steps. -/
def Reaches (labels : List String) (next : String → List String) : String → String → Prop :=
  ReflTransGen (Leads labels next)

namespace State

/-- The labels that are being visited, innermost first. -/
def path (s : State) : List String := s.visits.map Visit.label

def number (s : State) (label : String) : Nat := ((s.marks.get? label).map Mark.number).getD 0

def low (s : State) (label : String) : Nat := ((s.marks.get? label).map Mark.low).getD 0

/-- The visit of `a` has not looked at `b` yet. -/
def Waiting (s : State) (a b : String) : Prop := ∃ visit ∈ s.visits, visit.label = a ∧ b ∈ visit.rest

section Enter
variable {s : State} {label : String}

theorem mem_keys_enter {l : String} : l ∈ (s.enter next label).marks.keys ↔ l = label ∨ l ∈ s.marks.keys :=
  Table.mem_keys_insert

theorem size_enter (fresh : label ∉ s.marks.keys) : (s.enter next label).marks.size = s.marks.size + 1 := by
  simp [enter, Table.size, Table.entries_insert_of_not_mem _ fresh]

theorem number_enter_self : (s.enter next label).number label = s.marks.size := by
  simp [number, enter]

theorem low_enter_self : (s.enter next label).low label = s.marks.size := by
  simp [low, enter]

theorem number_enter (fresh : label ∉ s.marks.keys) {l : String} (old : l ∈ s.marks.keys) :
    (s.enter next label).number l = s.number l := by
  have different : l ≠ label := fun same => fresh (same ▸ old)
  simp [number, enter, Table.get?_insert_of_ne _ _ different]

theorem low_enter (fresh : label ∉ s.marks.keys) {l : String} (old : l ∈ s.marks.keys) :
    (s.enter next label).low l = s.low l := by
  have different : l ≠ label := fun same => fresh (same ▸ old)
  simp [low, enter, Table.get?_insert_of_ne _ _ different]

end Enter

section Lower
variable (s : State) (label : String) (bound : Nat)

@[simp] theorem path_lower : (s.lower label bound).path = s.path := rfl

@[simp] theorem stack_lower : (s.lower label bound).stack = s.stack := rfl

@[simp] theorem cyclic_lower : (s.lower label bound).cyclic = s.cyclic := rfl

@[simp] theorem size_lower : (s.lower label bound).marks.size = s.marks.size := by
  simp [lower, Table.size, Table.modify]

@[simp] theorem number_lower : (s.lower label bound).number = s.number := by
  funext l
  simp only [number, lower, Table.get?_modify]
  cases s.marks.get? l with
  | none => simp
  | some mark => split <;> simp_all

theorem low_lower (l : String) :
    (s.lower label bound).low l = if l = label then min (s.low l) bound else s.low l := by
  simp only [low, lower, Table.get?_modify]
  cases s.marks.get? l with
  | none => simp
  | some mark => split <;> simp_all

theorem low_lower_le (l : String) : (s.lower label bound).low l ≤ s.low l := by
  rw [low_lower]
  split
  · exact Nat.min_le_left _ _
  · exact Nat.le_refl _

end Lower

end State

/-- Numbers grow up the stack and along the visits, whose labels are on the stack. -/
structure Ordered (s : State) : Prop where
  bounded : ∀ l ∈ s.marks.keys, s.number l < s.marks.size
  entered : ∀ l ∈ s.stack, l ∈ s.marks.keys
  stacked : s.stack.Pairwise (fun a b => s.number b < s.number a)
  nested : s.path.Pairwise (fun v w => s.number w < s.number v)
  visited : ∀ v ∈ s.path, v ∈ s.stack

/-- All pairs have been looked at except those that are due, and what complete labels lead to is complete. -/
structure Scanned (labels : List String) (next : String → List String) (s : State) (due : String → String → Prop) :
    Prop where
  within : ∀ l ∈ s.marks.keys, l ∈ labels
  dueAt : ∀ a b, due a b → a ∈ s.path ∧ b ∈ next a
  looked : ∀ a ∈ s.marks.keys, ∀ b, Leads labels next a b → ¬due a b → b ∈ s.marks.keys
  complete : ∀ a ∈ s.marks.keys, a ∉ s.stack → ∀ b, Leads labels next a b → b ∈ s.marks.keys ∧ b ∉ s.stack

/-- The labels on the stack are reached from the visits below them, and reach a visit below them. -/
structure Joined (labels : List String) (next : String → List String) (s : State) : Prop where
  upward : ∀ v ∈ s.path, ∀ l ∈ s.stack, s.number v ≤ s.number l → Reaches labels next v l
  downward : ∀ l ∈ s.stack, ∃ v ∈ s.path, s.number v ≤ s.number l ∧ Reaches labels next l v

/-- A low number is that of a label which is reached. What has been seen from above a visit is not below its low number or
    that of a visit inside. -/
structure Lowered (labels : List String) (next : String → List String) (s : State) (due : String → String → Prop) :
    Prop where
  bounded : ∀ v ∈ s.path, s.low v ≤ s.number v
  reached : ∀ v ∈ s.path, ∃ l ∈ s.stack, s.number l = s.low v ∧ Reaches labels next v l
  least : ∀ v ∈ s.path, ∀ a ∈ s.stack, s.number v ≤ s.number a → ∀ b ∈ s.stack, Leads labels next a b → ¬due a b →
    ∃ w ∈ s.path, s.number v ≤ s.number w ∧ s.low w ≤ s.number b

/-- What holds during the walk, when the pairs `due` have still to be looked at. -/
structure Sound (labels : List String) (next : String → List String) (s : State) (due : String → String → Prop) : Prop where
  ordered : Ordered s
  scanned : Scanned labels next s due
  joined : Joined labels next s
  lowered : Lowered labels next s due
  cyclic_iff : ∀ l, l ∈ s.cyclic ↔ l ∈ s.marks.keys ∧ l ∉ s.stack ∧ TransGen (Leads labels next) l l

variable {s : State} {due due' : String → String → Prop} {label : String}

namespace Ordered

theorem path_entered (ordered : Ordered s) {v : String} (visiting : v ∈ s.path) : v ∈ s.marks.keys :=
  ordered.entered v (ordered.visited v visiting)

theorem number_injective (ordered : Ordered s) {a b : String} (aListed : a ∈ s.stack) (bListed : b ∈ s.stack)
    (same : s.number a = s.number b) : a = b := by
  by_contra different
  have symmetric : Std.Symm (fun a b => s.number a ≠ s.number b) := ⟨fun _ _ => Ne.symm⟩
  have apart : s.stack.Pairwise (fun a b => s.number a ≠ s.number b) := ordered.stacked.imp (fun less => Nat.ne_of_gt less)
  exact apart.forall aListed bListed different same

theorem below_enter (ordered : Ordered s) (fresh : label ∉ s.marks.keys) {l : String} (old : l ∈ s.marks.keys) :
    (s.enter next label).number l < (s.enter next label).number label := by
  rw [State.number_enter fresh old, State.number_enter_self]
  exact ordered.bounded l old

theorem enter (ordered : Ordered s) (fresh : label ∉ s.marks.keys) : Ordered (s.enter next label) := by
  refine ⟨fun l member => ?_, ?_, ?_, ?_, ?_⟩
  · rw [State.size_enter fresh]
    rcases State.mem_keys_enter.mp member with rfl | old
    · rw [State.number_enter_self]
      exact Nat.lt_succ_self _
    · rw [State.number_enter fresh old]
      exact Nat.lt_succ_of_lt (ordered.bounded l old)
  · refine List.forall_mem_cons.mpr ⟨State.mem_keys_enter.mpr (.inl rfl), fun l listed => ?_⟩
    exact State.mem_keys_enter.mpr (.inr (ordered.entered l listed))
  · refine List.pairwise_cons.mpr ⟨fun l listed => ordered.below_enter fresh (ordered.entered l listed), ?_⟩
    refine ordered.stacked.imp_of_mem (fun {a b} aListed bListed less => ?_)
    rwa [State.number_enter fresh (ordered.entered a aListed), State.number_enter fresh (ordered.entered b bListed)]
  · refine List.pairwise_cons.mpr ⟨fun v visiting => ordered.below_enter fresh (ordered.path_entered visiting), ?_⟩
    refine ordered.nested.imp_of_mem (fun vVisiting wVisiting less => ?_)
    rwa [State.number_enter fresh (ordered.path_entered vVisiting), State.number_enter fresh (ordered.path_entered wVisiting)]
  · refine List.forall_mem_cons.mpr ⟨List.mem_cons_self, fun v visiting => ?_⟩
    exact List.mem_cons_of_mem _ (ordered.visited v visiting)

end Ordered

/-- What is reached from a complete label is complete. -/
theorem Scanned.complete_of_reaches (scanned : Scanned labels next s due) {a b : String} (entered : a ∈ s.marks.keys)
    (off : a ∉ s.stack) (chain : Reaches labels next a b) : b ∈ s.marks.keys ∧ b ∉ s.stack := by
  induction chain with
  | refl => exact ⟨entered, off⟩
  | tail _ leads ih => exact scanned.complete _ ih.1 ih.2 _ leads

theorem Scanned.enter (scanned : Scanned labels next s due) (fresh : label ∉ s.marks.keys) (allowed : label ∈ labels)
    (dueAt : ∀ a b, due' a b → (a = label ∨ a ∈ s.path) ∧ b ∈ next a) (kept : ∀ a b, due a b → b = label ∨ due' a b)
    (own : ∀ b ∈ next label, due' label b) : Scanned labels next (s.enter next label) due' := by
  refine ⟨fun l member => ?_, fun a b isDue => ?_, fun a member b leads settled => ?_, fun a member away b leads => ?_⟩
  · rcases State.mem_keys_enter.mp member with rfl | old
    · exact allowed
    · exact scanned.within l old
  · obtain ⟨place, follows⟩ := dueAt a b isDue
    exact ⟨List.mem_cons.mpr place, follows⟩
  · rcases State.mem_keys_enter.mp member with rfl | old
    · exact absurd (own b leads.1) settled
    · by_cases isDue : due a b
      · exact State.mem_keys_enter.mpr (.inl ((kept a b isDue).resolve_right settled))
      · exact State.mem_keys_enter.mpr (.inr (scanned.looked a old b leads isDue))
  · obtain ⟨apart, off⟩ := not_or.mp (mt List.mem_cons.mpr away)
    obtain ⟨bEntered, bOff⟩ := scanned.complete a ((State.mem_keys_enter.mp member).resolve_left apart) off b leads
    refine ⟨State.mem_keys_enter.mpr (.inr bEntered), fun listed => ?_⟩
    rcases List.mem_cons.mp listed with rfl | old
    · exact fresh bEntered
    · exact bOff old

theorem Joined.enter (joined : Joined labels next s) (ordered : Ordered s) (fresh : label ∉ s.marks.keys)
    (reached : ∀ v ∈ s.path, Reaches labels next v label) : Joined labels next (s.enter next label) := by
  constructor
  · refine List.forall_mem_cons.mpr ⟨fun l listed above => ?_, fun v visiting l listed above => ?_⟩
    · rcases List.mem_cons.mp listed with rfl | old
      · exact .refl
      · exact absurd (ordered.below_enter fresh (ordered.entered l old)) (Nat.not_lt.mpr above)
    · rcases List.mem_cons.mp listed with rfl | old
      · exact reached v visiting
      · rw [State.number_enter fresh (ordered.path_entered visiting), State.number_enter fresh (ordered.entered l old)] at above
        exact joined.upward v visiting l old above
  · refine List.forall_mem_cons.mpr ⟨⟨label, List.mem_cons_self, Nat.le_refl _, .refl⟩, fun l listed => ?_⟩
    obtain ⟨v, visiting, above, chain⟩ := joined.downward l listed
    refine ⟨v, List.mem_cons_of_mem _ visiting, ?_, chain⟩
    rwa [State.number_enter fresh (ordered.path_entered visiting), State.number_enter fresh (ordered.entered l listed)]

/-- All that follows the new label is due, and whatever has seen it is below its number. -/
theorem Lowered.enter (lowered : Lowered labels next s due) (ordered : Ordered s) (fresh : label ∉ s.marks.keys)
    (kept : ∀ a b, due a b → b = label ∨ due' a b) (own : ∀ b ∈ next label, due' label b) :
    Lowered labels next (s.enter next label) due' := by
  have number : ∀ {l}, l ∈ s.stack → (s.enter next label).number l = s.number l := fun listed =>
    State.number_enter fresh (ordered.entered _ listed)
  have visit : ∀ {v}, v ∈ s.path → (s.enter next label).number v = s.number v ∧ (s.enter next label).low v = s.low v :=
    fun visiting => ⟨number (ordered.visited _ visiting), State.low_enter fresh (ordered.path_entered visiting)⟩
  refine ⟨?_, ?_, ?_⟩
  · refine List.forall_mem_cons.mpr ⟨?_, fun v visiting => ?_⟩
    · exact Nat.le_of_eq (State.low_enter_self.trans State.number_enter_self.symm)
    · rw [(visit visiting).1, (visit visiting).2]
      exact lowered.bounded v visiting
  · refine List.forall_mem_cons.mpr ⟨⟨label, List.mem_cons_self, ?_, .refl⟩, fun v visiting => ?_⟩
    · rw [State.low_enter_self, State.number_enter_self]
    · obtain ⟨l, listed, same, chain⟩ := lowered.reached v visiting
      refine ⟨l, List.mem_cons_of_mem _ listed, ?_, chain⟩
      rw [number listed, (visit visiting).2]
      exact same
  · intro v visiting a aListed above b bListed leads settled
    rcases List.mem_cons.mp aListed with rfl | aOld
    · exact absurd (own b leads.1) settled
    rcases List.mem_cons.mp visiting with rfl | vOld
    · exact absurd (ordered.below_enter fresh (ordered.entered a aOld)) (Nat.not_lt.mpr above)
    rcases List.mem_cons.mp bListed with rfl | bOld
    · refine ⟨v, visiting, Nat.le_refl _, ?_⟩
      rw [(visit vOld).2, State.number_enter_self]
      exact Nat.le_of_lt (Nat.lt_of_le_of_lt (lowered.bounded v vOld) (ordered.bounded v (ordered.path_entered vOld)))
    · have looked : ¬due a b := fun isDue =>
        (kept a b isDue).elim (fun same => fresh (same ▸ ordered.entered b bOld)) settled
      rw [(visit vOld).1, number aOld] at above
      obtain ⟨w, wVisiting, inside, least⟩ := lowered.least v vOld a aOld above b bOld leads looked
      refine ⟨w, List.mem_cons_of_mem _ wVisiting, ?_, ?_⟩
      · rwa [(visit vOld).1, (visit wVisiting).1]
      · rwa [(visit wVisiting).2, number bOld]

namespace Sound

theorem start : Sound labels next .start (fun _ _ => False) := by
  refine ⟨⟨?_, ?_, ?_, ?_, ?_⟩, ⟨?_, ?_, ?_, ?_⟩, ⟨?_, ?_⟩, ⟨?_, ?_, ?_⟩, ?_⟩ <;> simp [State.start, State.path]

/-- A new label may be entered that every visit leads to. -/
theorem enter (sound : Sound labels next s due) (fresh : label ∉ s.marks.keys) (allowed : label ∈ labels)
    (reached : ∀ v ∈ s.path, Reaches labels next v label)
    (dueAt : ∀ a b, due' a b → (a = label ∨ a ∈ s.path) ∧ b ∈ next a) (kept : ∀ a b, due a b → b = label ∨ due' a b)
    (own : ∀ b ∈ next label, due' label b) : Sound labels next (s.enter next label) due' := by
  have ordered := sound.ordered
  refine ⟨ordered.enter fresh, sound.scanned.enter fresh allowed dueAt kept own, sound.joined.enter ordered fresh reached,
    sound.lowered.enter ordered fresh kept own, fun l => ?_⟩
  rw [State.mem_keys_enter]
  show l ∈ s.cyclic ↔ _ ∧ l ∉ label :: s.stack ∧ _
  rw [sound.cyclic_iff, List.mem_cons, not_or]
  constructor
  · rintro ⟨old, off, cycle⟩
    exact ⟨.inr old, ⟨fun same => fresh (same ▸ old), off⟩, cycle⟩
  · rintro ⟨member, ⟨apart, off⟩, cycle⟩
    exact ⟨member.resolve_left apart, off, cycle⟩

/-- Of the visits only their labels matter. -/
theorem withVisits (sound : Sound labels next s due) {visits : List Visit} (same : visits.map Visit.label = s.path) :
    Sound labels next { s with visits } due := by
  have path : ({ s with visits } : State).path = s.path := same
  refine ⟨⟨sound.ordered.bounded, sound.ordered.entered, sound.ordered.stacked, ?_, ?_⟩,
    ⟨sound.scanned.within, ?_, sound.scanned.looked, sound.scanned.complete⟩, ⟨?_, ?_⟩, ⟨?_, ?_, ?_⟩, sound.cyclic_iff⟩ <;> rw [path]
  · exact sound.ordered.nested
  · exact sound.ordered.visited
  · exact sound.scanned.dueAt
  · exact sound.joined.upward
  · exact sound.joined.downward
  · exact sound.lowered.bounded
  · exact sound.lowered.reached
  · exact sound.lowered.least

/-- Pairs are no longer due whose second label has been entered and, if it is on the stack, is not below the low
    numbers. -/
theorem settle (sound : Sound labels next s due) (dueAt : ∀ a b, due' a b → a ∈ s.path ∧ b ∈ next a)
    (settled : ∀ a b, Leads labels next a b → due a b → ¬due' a b → b ∈ s.marks.keys ∧ (b ∈ s.stack →
      ∀ v ∈ s.path, s.number v ≤ s.number a → ∃ w ∈ s.path, s.number v ≤ s.number w ∧ s.low w ≤ s.number b)) :
    Sound labels next s due' := by
  refine ⟨sound.ordered, ⟨sound.scanned.within, dueAt, ?_, sound.scanned.complete⟩, sound.joined,
    ⟨sound.lowered.bounded, sound.lowered.reached, ?_⟩, sound.cyclic_iff⟩
  · intro a aEntered b leads done
    by_cases old : due a b
    · exact (settled a b leads old done).1
    · exact sound.scanned.looked a aEntered b leads old
  · intro v visiting a aListed above b bListed leads done
    by_cases old : due a b
    · exact (settled a b leads old done).2 bListed v visiting above
    · exact sound.lowered.least v visiting a aListed above b bListed leads old

end Sound

section Lower
variable {v l : String}

theorem Ordered.lower (ordered : Ordered s) (bound : Nat) : Ordered (s.lower v bound) := by
  refine ⟨?_, ?_, ?_, ?_, ordered.visited⟩
  · simpa using ordered.bounded
  · simpa using ordered.entered
  · simpa using ordered.stacked
  · simpa using ordered.nested

theorem Scanned.lower (scanned : Scanned labels next s due) (bound : Nat) : Scanned labels next (s.lower v bound) due := by
  refine ⟨?_, scanned.dueAt, ?_, ?_⟩
  · simpa using scanned.within
  · simpa using scanned.looked
  · simpa using scanned.complete

theorem Joined.lower (joined : Joined labels next s) (bound : Nat) : Joined labels next (s.lower v bound) := by
  constructor
  · simpa using joined.upward
  · simpa using joined.downward

theorem Lowered.lower (lowered : Lowered labels next s due) (listed : l ∈ s.stack) (chain : Reaches labels next v l) :
    Lowered labels next (s.lower v (s.number l)) due := by
  have less := s.low_lower_le v (s.number l)
  refine ⟨fun w visiting => ?_, fun w visiting => ?_, ?_⟩
  · rw [State.number_lower]
    exact Nat.le_trans (less w) (lowered.bounded w visiting)
  · rw [State.number_lower, State.low_lower]
    by_cases here : w = v ∧ s.number l < s.low w
    · refine ⟨l, listed, ?_, here.1 ▸ chain⟩
      rw [if_pos here.1, Nat.min_eq_right (Nat.le_of_lt here.2)]
    · obtain ⟨k, kListed, same, kChain⟩ := lowered.reached w visiting
      refine ⟨k, kListed, ?_, kChain⟩
      split
      next isV => rw [same, Nat.min_eq_left (Nat.not_lt.mp (fun less => here ⟨isV, less⟩))]
      next => exact same
  · rw [State.number_lower]
    intro u visiting a aListed above b bListed leads done
    obtain ⟨w, wVisiting, inside, low⟩ := lowered.least u visiting a aListed above b bListed leads done
    exact ⟨w, wVisiting, inside, Nat.le_trans (less w) low⟩

/-- The low number of a visit may be lowered to the number of any label on the stack that it reaches. -/
theorem Sound.lower (sound : Sound labels next s due) (listed : l ∈ s.stack) (chain : Reaches labels next v l) :
    Sound labels next (s.lower v (s.number l)) due := by
  refine ⟨sound.ordered.lower _, sound.scanned.lower _, sound.joined.lower _, sound.lowered.lower listed chain, ?_⟩
  simpa using sound.cyclic_iff

end Lower

section Leave
variable {outer : List Visit} (path : s.path = label :: outer.map Visit.label)
include path

theorem mem_path_iff {v : String} : v ∈ s.path ↔ v = label ∨ v ∈ outer.map Visit.label := by
  rw [path, List.mem_cons]

theorem Ordered.lt_label (ordered : Ordered s) {v : String} (visiting : v ∈ outer.map Visit.label) :
    s.number v < s.number label := by
  have nested := ordered.nested
  rw [path] at nested
  exact (List.pairwise_cons.mp nested).1 v visiting

theorem Ordered.le_label (ordered : Ordered s) {v : String} (visiting : v ∈ s.path) : s.number v ≤ s.number label := by
  rcases (mem_path_iff path).mp visiting with rfl | outside
  · exact Nat.le_refl _
  · exact Nat.le_of_lt (ordered.lt_label path outside)

theorem Ordered.leave (ordered : Ordered s) : Ordered { s with visits := outer } := by
  refine ⟨ordered.bounded, ordered.entered, ordered.stacked, ?_, fun v visiting => ?_⟩
  · have nested := ordered.nested
    rw [path] at nested
    exact (List.pairwise_cons.mp nested).2
  · exact ordered.visited v ((mem_path_iff path).mpr (.inr visiting))

theorem Scanned.leave (scanned : Scanned labels next s due) (done : ∀ b, ¬due label b) :
    Scanned labels next { s with visits := outer } due := by
  refine ⟨scanned.within, fun a b isDue => ?_, scanned.looked, scanned.complete⟩
  obtain ⟨visiting, follows⟩ := scanned.dueAt a b isDue
  rcases (mem_path_iff path).mp visiting with rfl | outside
  · exact absurd isDue (done b)
  · exact ⟨outside, follows⟩

/-- A label that is left and stays on the stack reaches one below it, and so a visit below it. -/
theorem Joined.leave (joined : Joined labels next s) (lowered : Lowered labels next s due)
    (stays : s.low label < s.number label) : Joined labels next { s with visits := outer } := by
  have inner : label ∈ s.path := (mem_path_iff path).mpr (.inl rfl)
  refine ⟨fun v visiting => joined.upward v ((mem_path_iff path).mpr (.inr visiting)), fun l listed => ?_⟩
  obtain ⟨v, visiting, below, chain⟩ := joined.downward l listed
  rcases (mem_path_iff path).mp visiting with rfl | outside
  · obtain ⟨k, kListed, same, kChain⟩ := lowered.reached v inner
    obtain ⟨w, wVisiting, kBelow, wChain⟩ := joined.downward k kListed
    have less : s.number w < s.number v := Nat.lt_of_le_of_lt kBelow (same ▸ stays)
    refine ⟨w, ?_, Nat.le_of_lt (Nat.lt_of_lt_of_le less below), chain.trans (kChain.trans wChain)⟩
    rcases (mem_path_iff path).mp wVisiting with rfl | outside
    · exact absurd less (Nat.lt_irrefl _)
    · exact outside
  · exact ⟨v, outside, below, chain⟩

theorem Lowered.leave (lowered : Lowered labels next s due) (ordered : Ordered s)
    (told : ∀ caller ∈ (outer.map Visit.label).head?, s.low caller ≤ s.low label) :
    Lowered labels next { s with visits := outer } due := by
  have outside : ∀ v ∈ outer.map Visit.label, v ∈ s.path := fun v visiting => (mem_path_iff path).mpr (.inr visiting)
  refine ⟨fun v visiting => lowered.bounded v (outside v visiting), fun v visiting => lowered.reached v (outside v visiting), ?_⟩
  intro v visiting a aListed above b bListed leads looked
  obtain ⟨w, wVisiting, inside, least⟩ := lowered.least v (outside v visiting) a aListed above b bListed leads looked
  rcases (mem_path_iff path).mp wVisiting with rfl | wOutside
  · -- The caller of the label has been told its low number.
    have nested := (ordered.leave path).nested
    show ∃ w ∈ outer.map Visit.label, s.number v ≤ s.number w ∧ s.low w ≤ s.number b
    change v ∈ outer.map Visit.label at visiting
    change (outer.map Visit.label).Pairwise (fun v w => s.number w < s.number v) at nested
    cases callers : outer.map Visit.label with
    | nil => simp [callers] at visiting
    | cons caller rest =>
      rw [callers] at nested visiting told
      refine ⟨caller, List.mem_cons_self, ?_, Nat.le_trans (told caller rfl) least⟩
      rcases List.mem_cons.mp visiting with rfl | later
      · exact Nat.le_refl _
      · exact Nat.le_of_lt ((List.pairwise_cons.mp nested).1 v later)
  · exact ⟨w, wOutside, inside, least⟩

/-- The visit of a label may end that reaches a label below it; it stays on the stack. -/
theorem Sound.leave (sound : Sound labels next s due) (done : ∀ b, ¬due label b) (stays : s.low label < s.number label)
    (told : ∀ caller ∈ (outer.map Visit.label).head?, s.low caller ≤ s.low label) :
    Sound labels next { s with visits := outer } due :=
  ⟨sound.ordered.leave path, sound.scanned.leave path done, sound.joined.leave path sound.lowered stays,
    sound.lowered.leave path sound.ordered told, sound.cyclic_iff⟩

end Leave

end DspPatch.Cycles
