import DspPatch.Table

/-!
The labels that lie on cycles of a relation, found by one depth-first walk. The walk numbers labels as it enters them and
puts them on a stack. For every label it keeps a low number, the least number on the stack that it has seen to be reached
from there. If the low number of a label is still its own number when the walk leaves it, then the labels from the top of
the stack down to it are a component: they lead to each other, and to no other label that is left on the stack. They lie on
cycles if there are several of them, or if the only one leads to itself.
-/
namespace DspPatch.Cycles

/-- The number of a label that was entered, and its low number. -/
structure Mark where
  number : Nat
  low : Nat
deriving DecidableEq, Repr

/-- A label that is being visited, and those of its next labels that have not been looked at. -/
structure Visit where
  label : String
  rest : List String
deriving DecidableEq, Repr

structure State where
  marks : Table Mark
  /-- The labels of components that are not complete, the last one entered first. -/
  stack : List String
  /-- Innermost first. -/
  visits : List Visit
  /-- The labels on cycles among the complete components. -/
  cyclic : List String

namespace State

/-- Nothing is entered yet. -/
def start : State := ⟨∅, [], [], []⟩

/-- Give a label its number and begin its visit. -/
def enter (next : String → List String) (s : State) (label : String) : State :=
  { s with
    marks := s.marks.insert label ⟨s.marks.size, s.marks.size⟩
    stack := label :: s.stack
    visits := ⟨label, next label⟩ :: s.visits }

/-- Lower the low number of a label to `bound`. -/
def lower (s : State) (label : String) (bound : Nat) : State :=
  { s with marks := s.marks.modify label (fun mark => { mark with low := min mark.low bound }) }

/-- Take the component of a label, which is the lowest of it, off the stack. -/
def close (s : State) (label : String) (leadsToItself : Bool) : State :=
  let size := s.stack.idxOf label + 1
  let members := s.stack.take size
  { s with
    stack := s.stack.drop size
    cyclic := if members.length > 1 || leadsToItself then s.cyclic ++ members else s.cyclic }

/-- Look at a label that the innermost visit, that of `label`, leads to. Only `labels` are entered. -/
def look (labels : List String) (next : String → List String) (s : State) (label seen : String) : State :=
  if seen ∈ labels then
    match s.marks.get? seen with
    | none => s.enter next seen
    | some mark => if seen ∈ s.stack then s.lower label mark.number else s
  else s

/-- The innermost visit has seen all that lies behind a low number. -/
def tell (s : State) (low : Nat) : State :=
  match s.visits with
  | [] => s
  | caller :: _ => s.lower caller.label low

/-- End the visit of a label, which is no longer among the visits. -/
def leave (next : String → List String) (s : State) (label : String) : State :=
  match s.marks.get? label with
  | none => s
  | some mark =>
    if mark.low = mark.number then (s.tell mark.low).close label ((next label).contains label) else s.tell mark.low

/-- Go on with the innermost visit. -/
def step (labels : List String) (next : String → List String) (s : State) : State :=
  match s.visits with
  | [] => s
  | ⟨label, seen :: rest⟩ :: outer => { s with visits := ⟨label, rest⟩ :: outer }.look labels next label seen
  | ⟨label, []⟩ :: outer => { s with visits := outer }.leave next label

/-- The steps that visits take: one for each label to be looked at, and one to leave. -/
def visitWork : List Visit → Nat
  | [] => 0
  | visit :: outer => visit.rest.length + 1 + visitWork outer

/-- The steps that the labels which have not been entered will take. -/
def labelWork (next : String → List String) (entered : List String) : List String → Nat
  | [] => 0
  | label :: rest => (if label ∈ entered then 0 else (next label).length + 2) + labelWork next entered rest

/-- A bound on the steps that are left. -/
def work (labels : List String) (next : String → List String) (s : State) : Nat :=
  labelWork next s.marks.keys labels + visitWork s.visits

variable (labels : List String) (next : String → List String)

theorem labelWork_le {entered more : List String} (kept : entered ⊆ more) :
    labelWork next more labels ≤ labelWork next entered labels := by
  induction labels with
  | nil => exact Nat.le_refl 0
  | cons l rest ih =>
    unfold labelWork
    by_cases old : l ∈ entered
    · rw [if_pos old, if_pos (kept old)]
      omega
    · rw [if_neg old]
      split <;> omega

/-- Entering a label takes the steps of its visit out of those of the labels. -/
theorem labelWork_lt {entered more : List String} (kept : entered ⊆ more) {label : String} (fresh : label ∉ entered)
    (now : label ∈ more) (listed : label ∈ labels) :
    labelWork next more labels + ((next label).length + 2) ≤ labelWork next entered labels := by
  induction labels with
  | nil => cases listed
  | cons l rest ih =>
    unfold labelWork
    by_cases same : l = label
    · subst same
      have later := labelWork_le rest next kept
      rw [if_neg fresh, if_pos now]
      omega
    · have later := ih ((List.mem_cons.mp listed).resolve_left (Ne.symm same))
      by_cases old : l ∈ entered
      · rw [if_pos old, if_pos (kept old)]
        omega
      · rw [if_neg old]
        split <;> omega

@[simp] theorem keys_lower (s : State) (label : String) (bound : Nat) : (s.lower label bound).marks.keys = s.marks.keys := by
  show (s.marks.entries.map _).map Prod.fst = _
  rw [List.map_map]
  rfl

theorem work_lower (s : State) (label : String) (bound : Nat) : (s.lower label bound).work labels next = s.work labels next := by
  rw [work, keys_lower]
  rfl

theorem work_tell (s : State) (low : Nat) : (s.tell low).work labels next = s.work labels next := by
  unfold tell
  split
  · rfl
  · exact work_lower labels next s _ low

theorem work_leave (s : State) (label : String) : (s.leave next label).work labels next = s.work labels next := by
  unfold leave
  split
  · rfl
  · split
    · exact work_tell labels next s _
    · exact work_tell labels next s _

theorem work_look (s : State) (label seen : String) : (s.look labels next label seen).work labels next ≤ s.work labels next := by
  unfold look
  split
  next listed =>
    split
    next unknown =>
      have fresh := Table.not_mem_keys_of_get? unknown
      have entered : s.marks.keys ⊆ (s.enter next seen).marks.keys := fun l old =>
        (mem_keys_putEntry seen _ s.marks.entries l).mpr (.inr old)
      have now : seen ∈ (s.enter next seen).marks.keys := (mem_keys_putEntry seen _ s.marks.entries seen).mpr (.inl rfl)
      have less := labelWork_lt labels next entered fresh now listed
      simp only [work, enter, visitWork] at less ⊢
      omega
    next mark _ =>
      split
      · exact Nat.le_of_eq (work_lower labels next s label mark.number)
      · exact Nat.le_refl _
  next => exact Nat.le_refl _

/-- A step that goes on with a visit leaves less to do. -/
theorem work_step_lt (s : State) (visiting : s.visits ≠ []) : (s.step labels next).work labels next < s.work labels next := by
  unfold step
  split
  next none => exact absurd none visiting
  next label seen rest outer visits =>
    have looked := work_look labels next { s with visits := ⟨label, rest⟩ :: outer } label seen
    simp only [work, visits, visitWork, List.length_cons] at looked ⊢
    omega
  next label outer visits =>
    have left := work_leave labels next { s with visits := outer } label
    simp only [work, visits, visitWork] at left ⊢
    omega

end State

/-- Take steps until no label is being visited. -/
def run (labels : List String) (next : String → List String) (s : State) : State :=
  if s.visits = [] then s else run labels next (s.step labels next)
termination_by s.work labels next
decreasing_by exact State.work_step_lt labels next s ‹_›

/-- Visit a label and all that it leads to, unless it has been entered before. -/
def explore (labels : List String) (next : String → List String) (s : State) (label : String) : State :=
  if s.marks.contains label then s else run labels next (s.enter next label)

/-- The labels that lie on a cycle of the relation from a label to its next ones, within `labels`. -/
def members (labels : List String) (next : String → List String) : List String :=
  (labels.foldl (explore labels next) .start).cyclic

end DspPatch.Cycles
