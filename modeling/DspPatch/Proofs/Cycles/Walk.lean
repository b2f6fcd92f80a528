import DspPatch.Proofs.Cycles.Invariant

/-!
The depth-first walk finds exactly the labels on cycles (`mem_members_iff`). A label that is left with its own number as
low number is the lowest of its component, and the labels above it on the stack are the rest of it, so closing the
component keeps the invariant. Every step keeps it then, and when nothing is being visited the stack is empty.
-/
namespace DspPatch.Cycles
open Relation
variable {labels : List String} {next : String → List String}
variable {s : State} {due due' : String → String → Prop} {label : String}

/-- A label of the component that is on top of the stack, down to `lowest`. -/
def State.Above (s : State) (lowest l : String) : Prop := l ∈ s.stack ∧ s.number lowest ≤ s.number l

/-- All of a label's component is above it on the stack: its visit is over and has seen nothing below. -/
structure Lowest (labels : List String) (next : String → List String) (s : State) (due : String → String → Prop)
    (label : String) : Prop where
  sound : Sound labels next s due
  innermost : label ∈ s.path ∧ ∀ v ∈ s.path, s.number v ≤ s.number label
  done : ∀ b, ¬due label b
  own : s.low label = s.number label

namespace Lowest

theorem above (lowest : Lowest labels next s due label) : s.Above label label :=
  ⟨lowest.sound.ordered.visited label lowest.innermost.1, Nat.le_refl _⟩

/-- Only the label itself is being visited among those above it. -/
theorem eq_of_visiting (lowest : Lowest labels next s due label) {v : String} (visiting : v ∈ s.path)
    (above : s.number label ≤ s.number v) : v = label := by
  have listed := lowest.sound.ordered.visited
  exact lowest.sound.ordered.number_injective (listed v visiting) (listed label lowest.innermost.1)
    (Nat.le_antisymm (lowest.innermost.2 v visiting) above)

/-- The labels above lead to each other and to complete labels only. -/
theorem leads (lowest : Lowest labels next s due label) {a b : String} (above : s.Above label a)
    (leads : Leads labels next a b) : (b ∈ s.marks.keys ∧ b ∉ s.stack) ∨ s.Above label b := by
  have sound := lowest.sound
  have looked : ¬due a b := by
    intro isDue
    obtain rfl := lowest.eq_of_visiting (sound.scanned.dueAt a b isDue).1 above.2
    exact lowest.done b isDue
  have entered := sound.scanned.looked a (sound.ordered.entered a above.1) b leads looked
  by_cases listed : b ∈ s.stack
  · obtain ⟨w, visiting, inside, least⟩ :=
      sound.lowered.least label lowest.innermost.1 a above.1 above.2 b listed leads looked
    obtain rfl := lowest.eq_of_visiting visiting inside
    exact .inr ⟨listed, lowest.own ▸ least⟩
  · exact .inl ⟨entered, listed⟩

theorem reaches (lowest : Lowest labels next s due label) {a b : String} (above : s.Above label a)
    (chain : Reaches labels next a b) : (b ∈ s.marks.keys ∧ b ∉ s.stack) ∨ s.Above label b := by
  induction chain with
  | refl => exact .inr above
  | tail _ step ih =>
    rcases ih with complete | inside
    · exact .inl (lowest.sound.scanned.complete _ complete.1 complete.2 _ step)
    · exact lowest.leads inside step

/-- The labels above are reached from the lowest one and reach it. -/
theorem joined (lowest : Lowest labels next s due label) {a : String} (above : s.Above label a) :
    Reaches labels next label a ∧ Reaches labels next a label := by
  have sound := lowest.sound
  refine ⟨sound.joined.upward label lowest.innermost.1 a above.1 above.2, ?_⟩
  obtain ⟨v, visiting, _, chain⟩ := sound.joined.downward a above.1
  rcases lowest.reaches above chain with ⟨_, off⟩ | inside
  · exact absurd (sound.ordered.visited v visiting) off
  · exact lowest.eq_of_visiting visiting inside.2 ▸ chain

/-- The labels above lie on cycles if there are several of them, or if the only one leads to itself. -/
theorem transGen_iff (lowest : Lowest labels next s due label) {a : String} (above : s.Above label a) :
    TransGen (Leads labels next) a a ↔ (∃ b, s.Above label b ∧ b ≠ label) ∨ Leads labels next label label := by
  constructor
  · intro cycle
    by_contra single
    obtain ⟨alone, noLoop⟩ := not_or.mp single
    have only : ∀ {b}, s.Above label b → b = label := fun inside => by_contra fun apart => alone ⟨_, inside, apart⟩
    obtain rfl := only above
    obtain ⟨b, first, rest⟩ := TransGen.head'_iff.mp cycle
    rcases lowest.leads above first with ⟨entered, off⟩ | inside
    · exact (lowest.sound.scanned.complete_of_reaches entered off rest).2 above.1
    · exact noLoop (only inside ▸ first)
  · intro reason
    have around : TransGen (Leads labels next) label label := by
      rcases reason with ⟨b, inside, apart⟩ | loop
      · obtain ⟨there, back⟩ := lowest.joined inside
        exact ((reflTransGen_iff_eq_or_transGen.mp there).resolve_left apart).trans_left back
      · exact .single loop
    obtain ⟨there, back⟩ := lowest.joined above
    exact (TransGen.trans_right back around).trans_left there

end Lowest

section Close
variable {loops : Bool}

/-- The stack around one of its labels: what is not below it, which ends with it, and what is. -/
theorem Ordered.stack_eq (ordered : Ordered s) (listed : label ∈ s.stack) :
    ∃ top below, s.stack = (top ++ [label]) ++ below ∧ label ∉ top ∧ (∀ l, s.Above label l ↔ l ∈ top ++ [label]) ∧
      ∀ l ∈ below, s.number l < s.number label := by
  obtain ⟨top, below, split⟩ := List.append_of_mem listed
  have stacked := ordered.stacked
  rw [split, List.pairwise_append, List.pairwise_cons] at stacked
  obtain ⟨_, ⟨smaller, _⟩, apart⟩ := stacked
  have larger : ∀ l ∈ top, s.number label < s.number l := fun l above => apart l above label List.mem_cons_self
  have parts : s.stack = (top ++ [label]) ++ below := by rw [split, List.append_assoc, List.singleton_append]
  refine ⟨top, below, parts, fun above => Nat.lt_irrefl _ (larger label above), fun l => ?_, smaller⟩
  rw [State.Above, parts, List.mem_append]
  constructor
  · rintro ⟨inside | under, least⟩
    · exact inside
    · exact absurd (smaller l under) (Nat.not_lt.mpr least)
  · intro inside
    refine ⟨.inl inside, ?_⟩
    rcases List.mem_append.mp inside with above | same
    · exact Nat.le_of_lt (larger l above)
    · exact List.mem_singleton.mp same ▸ Nat.le_refl _

theorem idxOf_succ {top below : List String} (away : label ∉ top) :
    ((top ++ [label]) ++ below).idxOf label + 1 = (top ++ [label]).length := by
  simp [List.idxOf_append, away]

/-- Closing a label takes off the stack what is not below it. -/
theorem Ordered.mem_stack_close (ordered : Ordered s) (listed : label ∈ s.stack) {l : String} :
    l ∈ (s.close label loops).stack ↔ l ∈ s.stack ∧ s.number l < s.number label := by
  obtain ⟨top, below, parts, away, above_iff, smaller⟩ := ordered.stack_eq listed
  show l ∈ s.stack.drop (s.stack.idxOf label + 1) ↔ _
  rw [parts, idxOf_succ away, List.drop_left, List.mem_append]
  constructor
  · exact fun under => ⟨.inr under, smaller l under⟩
  · rintro ⟨inside | under, less⟩
    · exact absurd ((above_iff l).mpr inside).2 (Nat.not_le.mpr less)
    · exact under

/-- Closing a label counts what is not below it if that is several labels, or one that leads to itself. -/
theorem Ordered.mem_cyclic_close (ordered : Ordered s) (listed : label ∈ s.stack) {l : String} :
    l ∈ (s.close label loops).cyclic ↔
      l ∈ s.cyclic ∨ s.Above label l ∧ ((∃ b, s.Above label b ∧ b ≠ label) ∨ loops = true) := by
  obtain ⟨top, below, parts, away, above_iff, _⟩ := ordered.stack_eq listed
  have several : (∃ b, s.Above label b ∧ b ≠ label) ↔ (top ++ [label]).length > 1 := by
    cases top with
    | nil => simp [above_iff]
    | cons l rest =>
      simp only [above_iff, List.cons_append, List.length_cons, List.length_append, List.length_nil]
      refine ⟨fun _ => by omega, fun _ => ⟨l, List.mem_cons_self, fun same => ?_⟩⟩
      exact away (same ▸ List.mem_cons_self)
  simp only [State.close]
  rw [several, above_iff, parts, idxOf_succ away, List.take_left]
  simp only [Bool.or_eq_true, decide_eq_true_eq]
  split
  next counted => rw [List.mem_append, and_iff_left counted]
  next single => rw [iff_comm, or_iff_left_iff_imp]; exact fun both => absurd both.2 single

end Close

section CloseLowest
variable {outer : List Visit} (path : s.path = label :: outer.map Visit.label)
include path

theorem Sound.lowest (sound : Sound labels next s due) (done : ∀ b, ¬due label b) (own : s.low label = s.number label) :
    Lowest labels next s due label :=
  ⟨sound, ⟨(mem_path_iff path).mpr (.inl rfl), fun _ visiting => sound.ordered.le_label path visiting⟩, done, own⟩

namespace Lowest
variable (lowest : Lowest labels next s due label)
include lowest

theorem mem_stack_close {loops : Bool} {l : String} :
    l ∈ ({ s with visits := outer }.close label loops).stack ↔ l ∈ s.stack ∧ s.number l < s.number label :=
  (lowest.sound.ordered.leave path).mem_stack_close lowest.above.1

theorem ordered_close (loops : Bool) : Ordered ({ s with visits := outer }.close label loops) := by
  have ordered := lowest.sound.ordered
  have left := ordered.leave path
  refine ⟨ordered.bounded, fun l listed => ?_, ?_, left.nested, fun v visiting => ?_⟩
  · exact ordered.entered l ((lowest.mem_stack_close path).mp listed).1
  · exact ordered.stacked.sublist (List.drop_sublist _ _)
  · exact (lowest.mem_stack_close path).mpr ⟨left.visited v visiting, ordered.lt_label path visiting⟩

theorem scanned_close (loops : Bool) : Scanned labels next ({ s with visits := outer }.close label loops) due := by
  have scanned := lowest.sound.scanned
  refine ⟨scanned.within, (scanned.leave path lowest.done).dueAt, scanned.looked, fun a entered away b leads => ?_⟩
  have complete : (b ∈ s.marks.keys ∧ b ∉ s.stack) ∨ s.Above label b := by
    by_cases listed : a ∈ s.stack
    · have above : ¬s.number a < s.number label := fun less => away ((lowest.mem_stack_close path).mpr ⟨listed, less⟩)
      exact lowest.leads ⟨listed, Nat.not_lt.mp above⟩ leads
    · exact .inl (scanned.complete a entered listed b leads)
  rw [lowest.mem_stack_close path]
  rcases complete with ⟨bEntered, off⟩ | ⟨listed, above⟩
  · exact ⟨bEntered, fun stays => off stays.1⟩
  · exact ⟨lowest.sound.ordered.entered b listed, fun stays => absurd stays.2 (Nat.not_lt.mpr above)⟩

theorem joined_close (loops : Bool) : Joined labels next ({ s with visits := outer }.close label loops) := by
  have joined := lowest.sound.joined
  refine ⟨fun v visiting l listed above => ?_, fun l listed => ?_⟩
  · exact joined.upward v ((mem_path_iff path).mpr (.inr visiting)) l ((lowest.mem_stack_close path).mp listed).1 above
  · obtain ⟨old, less⟩ := (lowest.mem_stack_close path).mp listed
    obtain ⟨v, visiting, below, chain⟩ := joined.downward l old
    rcases (mem_path_iff path).mp visiting with rfl | outside
    · exact absurd less (Nat.not_lt.mpr below)
    · exact ⟨v, outside, below, chain⟩

theorem lowered_close (loops : Bool) : Lowered labels next ({ s with visits := outer }.close label loops) due := by
  have lowered := lowest.sound.lowered
  have outside : ∀ v ∈ outer.map Visit.label, v ∈ s.path := fun v visiting => (mem_path_iff path).mpr (.inr visiting)
  refine ⟨fun v visiting => lowered.bounded v (outside v visiting), fun v visiting => ?_, ?_⟩
  · obtain ⟨l, listed, same, chain⟩ := lowered.reached v (outside v visiting)
    have less : s.number l < s.number label := by
      rw [same]
      exact Nat.lt_of_le_of_lt (lowered.bounded v (outside v visiting)) (lowest.sound.ordered.lt_label path visiting)
    exact ⟨l, (lowest.mem_stack_close path).mpr ⟨listed, less⟩, same, chain⟩
  · intro v visiting a aListed above b bListed leads looked
    obtain ⟨aOld, _⟩ := (lowest.mem_stack_close path).mp aListed
    obtain ⟨bOld, less⟩ := (lowest.mem_stack_close path).mp bListed
    obtain ⟨w, wVisiting, inside, least⟩ := lowered.least v (outside v visiting) a aOld above b bOld leads looked
    rcases (mem_path_iff path).mp wVisiting with rfl | wOutside
    · -- The label that is closed has seen nothing below itself.
      exact absurd (lowest.own ▸ least) (Nat.not_le.mpr less)
    · exact ⟨w, wOutside, inside, least⟩

/-- The visit of the lowest label of a component may end, which closes the component. -/
theorem sound_close : Sound labels next ({ s with visits := outer }.close label ((next label).contains label)) due := by
  have sound := lowest.sound
  have loops : (next label).contains label = true ↔ Leads labels next label label := by
    have allowed := sound.scanned.within label (sound.ordered.path_entered lowest.innermost.1)
    rw [Leads, List.contains_iff_mem, and_iff_left allowed]
  refine ⟨lowest.ordered_close path _, lowest.scanned_close path _, lowest.joined_close path _, lowest.lowered_close path _,
    fun l => ?_⟩
  rw [(sound.ordered.leave path).mem_cyclic_close lowest.above.1, lowest.mem_stack_close path, loops]
  show l ∈ s.cyclic ∨ s.Above label l ∧ _ ↔ l ∈ s.marks.keys ∧ _
  rw [sound.cyclic_iff]
  constructor
  · rintro (⟨entered, off, cycle⟩ | ⟨above, reason⟩)
    · exact ⟨entered, fun stays => off stays.1, cycle⟩
    · refine ⟨sound.ordered.entered l above.1, fun stays => absurd stays.2 (Nat.not_lt.mpr above.2), ?_⟩
      exact (lowest.transGen_iff above).mpr reason
  · rintro ⟨entered, away, cycle⟩
    by_cases listed : l ∈ s.stack
    · have above : s.Above label l := ⟨listed, Nat.not_lt.mp (fun less => away ⟨listed, less⟩)⟩
      exact .inr ⟨above, (lowest.transGen_iff above).mp cycle⟩
    · exact .inl ⟨entered, listed, cycle⟩

end Lowest
end CloseLowest

section EndVisit
variable {outer : List Visit} (path : s.path = label :: outer.map Visit.label)
include path

/-- The caller of the innermost visit may be told what that has seen. -/
theorem Sound.tell (sound : Sound labels next s due) :
    ∃ told : State, { s with visits := outer }.tell (s.low label) = { told with visits := outer } ∧
      Sound labels next told due ∧ told.path = s.path ∧ told.number = s.number ∧ told.low label = s.low label ∧
      ∀ caller ∈ (outer.map Visit.label).head?, told.low caller ≤ s.low label := by
  cases outer with
  | nil => exact ⟨s, rfl, sound, rfl, rfl, rfl, by simp⟩
  | cons caller rest =>
    have inner : label ∈ s.path := (mem_path_iff path).mpr (.inl rfl)
    have outside : caller.label ∈ s.path := (mem_path_iff path).mpr (.inr List.mem_cons_self)
    have less : s.number caller.label < s.number label := sound.ordered.lt_label path List.mem_cons_self
    obtain ⟨l, listed, same, chain⟩ := sound.lowered.reached label inner
    have up := sound.joined.upward caller.label outside label (sound.ordered.visited label inner) (Nat.le_of_lt less)
    refine ⟨s.lower caller.label (s.low label), rfl, same ▸ sound.lower listed (up.trans chain), rfl, s.number_lower _ _, ?_, ?_⟩
    · rw [State.low_lower, if_neg]
      rintro rfl
      exact Nat.lt_irrefl _ less
    · rintro _ ⟨⟩
      rw [State.low_lower, if_pos rfl]
      exact Nat.min_le_right _ _

/-- The innermost visit may end when it has looked at all that follows its label. -/
theorem Sound.endVisit (sound : Sound labels next s due) (done : ∀ b, ¬due label b) :
    Sound labels next ({ s with visits := outer }.leave next label) due := by
  obtain ⟨told, tells, soundTold, samePath, sameNumber, sameLow, callerTold⟩ := sound.tell path
  have inner : label ∈ s.path := (mem_path_iff path).mpr (.inl rfl)
  obtain ⟨mark, marked⟩ := Table.mem_keys_iff.mp (sound.ordered.path_entered inner)
  have low : s.low label = mark.low := by simp [State.low, marked]
  have number : s.number label = mark.number := by simp [State.number, marked]
  rw [low] at tells
  simp only [State.leave, marked, tells]
  rw [← samePath] at path
  split
  next own =>
    have lowest := soundTold.lowest path done (by rw [sameLow, sameNumber, low, number, own])
    exact lowest.sound_close path
  next lower =>
    have below : mark.low < mark.number := by
      have bounded := sound.lowered.bounded label inner
      rw [low, number] at bounded
      exact Nat.lt_of_le_of_ne bounded lower
    refine soundTold.leave path done ?_ (fun caller first => sameLow ▸ callerTold caller first)
    rwa [sameLow, sameNumber, low, number]

end EndVisit

/-- The innermost visit may look at one more label that follows its own. -/
theorem Sound.look (sound : Sound labels next s due) {seen : String}
    (innermost : label ∈ s.path ∧ ∀ v ∈ s.path, s.number v ≤ s.number label)
    (due_iff : ∀ a b, due a b ↔ s.Waiting a b ∨ a = label ∧ b = seen) :
    Sound labels next (s.look labels next label seen) (s.look labels next label seen).Waiting := by
  have follows : seen ∈ next label := (sound.scanned.dueAt label seen ((due_iff _ _).mpr (.inr ⟨rfl, rfl⟩))).2
  have dueAt : ∀ a b, s.Waiting a b → a ∈ s.path ∧ b ∈ next a := fun a b waits =>
    sound.scanned.dueAt a b ((due_iff a b).mpr (.inl waits))
  have only : ∀ {a b}, due a b → ¬s.Waiting a b → a = label ∧ b = seen := fun isDue settled =>
    ((due_iff _ _).mp isDue).resolve_left settled
  unfold State.look
  split
  next allowed =>
    split
    next unknown =>
      refine sound.enter (Table.not_mem_keys_of_get? unknown) allowed (fun v visiting => ?_) ?_ ?_ ?_
      · have up := sound.joined.upward v visiting label (sound.ordered.visited label innermost.1) (innermost.2 v visiting)
        exact up.tail ⟨follows, allowed⟩
      · rintro a b ⟨visit, visiting, rfl, rest⟩
        rcases List.mem_cons.mp visiting with rfl | old
        · exact ⟨.inl rfl, rest⟩
        · obtain ⟨place, after⟩ := dueAt visit.label b ⟨visit, old, rfl, rest⟩
          exact ⟨.inr place, after⟩
      · intro a b isDue
        rcases (due_iff a b).mp isDue with ⟨visit, old, same, rest⟩ | ⟨_, rfl⟩
        · exact .inr ⟨visit, List.mem_cons_of_mem _ old, same, rest⟩
        · exact .inl rfl
      · exact fun b after => ⟨⟨seen, next seen⟩, List.mem_cons_self, rfl, after⟩
    next mark marked =>
      have entered : seen ∈ s.marks.keys := Table.mem_keys_of_get? marked
      have number : s.number seen = mark.number := by simp [State.number, marked]
      split
      next listed =>
        have up : Reaches labels next label seen := .single ⟨follows, allowed⟩
        have lowered := sound.lower listed up
        rw [number] at lowered
        refine lowered.settle dueAt (fun a b leads isDue settled => ?_)
        obtain ⟨rfl, rfl⟩ := only isDue settled
        rw [State.keys_lower, State.number_lower]
        refine ⟨entered, fun _ v visiting below => ⟨a, innermost.1, below, ?_⟩⟩
        rw [State.low_lower, if_pos rfl, number]
        exact Nat.min_le_right _ _
      next off =>
        refine sound.settle dueAt (fun a b leads isDue settled => ?_)
        obtain ⟨rfl, rfl⟩ := only isDue settled
        exact ⟨entered, fun listed => absurd listed off⟩
  next outside =>
    refine sound.settle dueAt (fun a b leads isDue settled => ?_)
    obtain ⟨rfl, rfl⟩ := only isDue settled
    exact absurd leads.2 outside

namespace State

theorem visits_tell (s : State) (low : Nat) : (s.tell low).visits = s.visits := by
  unfold tell
  split <;> rfl

theorem visits_leave (s : State) (label : String) : (s.leave next label).visits = s.visits := by
  unfold leave
  split
  · rfl
  · split
    · exact s.visits_tell _
    · exact s.visits_tell _

end State

/-- Every step of the walk keeps the invariant. -/
theorem Sound.step (sound : Sound labels next s s.Waiting) :
    Sound labels next (s.step labels next) (s.step labels next).Waiting := by
  unfold State.step
  split
  next => exact sound
  next label seen rest outer visits =>
    have path : s.path = label :: outer.map Visit.label := by rw [State.path, visits]; rfl
    have going : Sound labels next { s with visits := ⟨label, rest⟩ :: outer } s.Waiting := sound.withVisits path.symm
    refine going.look ⟨List.mem_cons_self, fun v visiting => ?_⟩ (fun a b => ?_)
    · exact sound.ordered.le_label path (path ▸ visiting)
    · simp only [State.Waiting, visits, List.mem_cons, exists_eq_or_imp]
      constructor
      · rintro (⟨rfl, rfl | later⟩ | outside)
        · exact .inr ⟨rfl, rfl⟩
        · exact .inl (.inl ⟨rfl, later⟩)
        · exact .inl (.inr outside)
      · rintro ((⟨rfl, later⟩ | outside) | ⟨rfl, rfl⟩)
        · exact .inl ⟨rfl, .inr later⟩
        · exact .inr outside
        · exact .inl ⟨rfl, .inl rfl⟩
  next label outer visits =>
    have path : s.path = label :: outer.map Visit.label := by rw [State.path, visits]; rfl
    have waiting : ({ s with visits := outer }.leave next label).Waiting = s.Waiting := by
      funext a b
      simp [State.Waiting, State.visits_leave, visits]
    rw [waiting]
    refine sound.endVisit path (fun b waits => ?_)
    -- No other visit has the same label, as its number would be less.
    rw [State.Waiting, visits] at waits
    obtain ⟨visit, visiting, same, later⟩ := waits
    rcases List.mem_cons.mp visiting with rfl | outside
    · cases later
    · exact Nat.lt_irrefl _ (sound.ordered.lt_label path (same ▸ List.mem_map_of_mem outside))

namespace State

theorem keys_tell (s : State) (low : Nat) : (s.tell low).marks.keys = s.marks.keys := by
  unfold tell
  split
  · rfl
  · exact keys_lower s _ low

theorem keys_leave (s : State) (label : String) : (s.leave next label).marks.keys = s.marks.keys := by
  unfold leave
  split
  · rfl
  · split
    · exact s.keys_tell _
    · exact s.keys_tell _

theorem keys_step (s : State) : s.marks.keys ⊆ (s.step labels next).marks.keys := by
  unfold step
  split
  next => exact List.Subset.refl _
  next =>
    unfold look
    split
    next =>
      split
      next => exact fun l old => mem_keys_enter.mpr (.inr old)
      next =>
        split
        · rw [keys_lower]
          exact List.Subset.refl _
        · exact List.Subset.refl _
    next => exact List.Subset.refl _
  next =>
    rw [keys_leave]
    exact List.Subset.refl _

end State

/-- Nothing is being visited, and all that was entered is complete. -/
structure Rested (labels : List String) (next : String → List String) (s : State) : Prop where
  sound : Sound labels next s s.Waiting
  idle : s.visits = []

theorem Rested.stack_eq_nil (rested : Rested labels next s) : s.stack = [] := by
  refine List.eq_nil_iff_forall_not_mem.mpr (fun l listed => ?_)
  obtain ⟨v, visiting, _⟩ := rested.sound.joined.downward l listed
  rw [State.path, rested.idle] at visiting
  cases visiting

/-- Taking steps ends with nothing being visited. -/
theorem Sound.run (sound : Sound labels next s s.Waiting) :
    Rested labels next (run labels next s) ∧ s.marks.keys ⊆ (run labels next s).marks.keys := by
  induction s using Cycles.run.induct labels next with
  | case1 s idle =>
    rw [Cycles.run, if_pos idle]
    exact ⟨⟨sound, idle⟩, List.Subset.refl _⟩
  | case2 s visiting ih =>
    rw [Cycles.run, if_neg visiting]
    obtain ⟨rested, kept⟩ := ih sound.step
    exact ⟨rested, List.Subset.trans s.keys_step kept⟩

theorem Rested.explore (rested : Rested labels next s) (allowed : label ∈ labels) :
    Rested labels next (explore labels next s label) ∧
      ∀ l, l = label ∨ l ∈ s.marks.keys → l ∈ (explore labels next s label).marks.keys := by
  unfold Cycles.explore
  split
  next known =>
    refine ⟨rested, fun l member => ?_⟩
    rcases member with rfl | old
    · exact Table.contains_iff.mp known
    · exact old
  next unknown =>
    have fresh : label ∉ s.marks.keys := fun member => unknown (Table.contains_iff.mpr member)
    have nothing : ∀ {a b}, ¬s.Waiting a b := by
      rintro a b ⟨visit, visiting, _⟩
      rw [rested.idle] at visiting
      cases visiting
    have entered : Sound labels next (s.enter next label) (s.enter next label).Waiting := by
      refine rested.sound.enter fresh allowed ?_ ?_ (fun a b waits => absurd waits nothing) ?_
      · rw [State.path, rested.idle]
        exact fun v visiting => absurd visiting List.not_mem_nil
      · rintro a b ⟨visit, visiting, rfl, rest⟩
        rcases List.mem_cons.mp visiting with rfl | old
        · exact ⟨.inl rfl, rest⟩
        · exact absurd ⟨visit, old, rfl, rest⟩ (nothing (a := visit.label) (b := b))
      · exact fun b after => ⟨⟨label, next label⟩, List.mem_cons_self, rfl, after⟩
    obtain ⟨finished, kept⟩ := entered.run
    exact ⟨finished, fun l member => kept (State.mem_keys_enter.mpr member)⟩

theorem Rested.foldl (rested : Rested labels next s) (todo : List String) (allowed : todo ⊆ labels) :
    Rested labels next (todo.foldl (Cycles.explore labels next) s) ∧
      ∀ l, l ∈ todo ∨ l ∈ s.marks.keys → l ∈ (todo.foldl (Cycles.explore labels next) s).marks.keys := by
  induction todo generalizing s with
  | nil => exact ⟨rested, fun l member => member.resolve_left List.not_mem_nil⟩
  | cons label rest ih =>
    obtain ⟨explored, kept⟩ := rested.explore (allowed List.mem_cons_self)
    obtain ⟨finished, later⟩ := ih explored (fun l member => allowed (List.mem_cons_of_mem _ member))
    refine ⟨finished, fun l member => later l ?_⟩
    rw [List.mem_cons, or_comm (a := l = label), or_assoc] at member
    exact member.imp_right (kept l)

/-- The walk finds the labels on cycles, and no others. -/
theorem mem_members_iff {l : String} : l ∈ members labels next ↔ TransGen (Leads labels next) l l := by
  have begun : Rested labels next .start := by
    refine ⟨Sound.start.settle ?_ ?_, rfl⟩ <;> simp [State.Waiting, State.start]
  obtain ⟨rested, entered⟩ := begun.foldl labels (List.Subset.refl _)
  unfold members
  rw [rested.sound.cyclic_iff, rested.stack_eq_nil]
  refine ⟨fun found => found.2.2, fun cycle => ⟨entered l (.inl ?_), List.not_mem_nil, cycle⟩⟩
  obtain ⟨_, _, last⟩ := TransGen.tail'_iff.mp cycle
  exact last.2

end DspPatch.Cycles
