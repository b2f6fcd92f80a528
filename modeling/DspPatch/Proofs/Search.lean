import DspPatch.Proofs.Outcome
import DspPatch.Search
import Mathlib.Logic.Relation

/-!
Breadth-first search finds exactly what can be reached. Its result begins with the queue and goes on with newly found
items, whose labels are all different; whatever an item of the result leads to is in the result, and the items come in the
order of their depth below the roots. A search fails only at an
item that can be reached and whose next items are unknown. Two searches that run alike at all items they come to find the
same items.
-/
namespace DspPatch.Search
open Relation
variable {ε α : Type} {labels : List String} {label : α → String} {next : α → Except ε (List α)}

/-- The items with new labels are put at the end, each label once. -/
theorem discover_eq (labels : List String) (label : α → String) (seen : List String) (queue found : List α) :
    ∃ new, discover labels label seen queue found = (seen ++ new.map label, queue ++ new) ∧
      (new.map label).Nodup ∧ (∀ x ∈ new, x ∈ found ∧ label x ∈ labels ∧ label x ∉ seen) ∧
      ∀ x ∈ found, label x ∈ labels → label x ∈ seen ∨ label x ∈ new.map label := by
  induction found generalizing seen queue with
  | nil => exact ⟨[], by simp [discover], by simp, by simp, by simp⟩
  | cons item rest ih =>
    by_cases fresh : label item ∈ labels ∧ label item ∉ seen
    · obtain ⟨new, result, nodup, inside, covered⟩ := ih (seen ++ [label item]) (queue ++ [item])
      refine ⟨item :: new, ?_, ?_, ?_, ?_⟩
      · rw [discover, if_pos fresh, result]
        simp
      · rw [List.map_cons, List.nodup_cons]
        refine ⟨fun repeated => ?_, nodup⟩
        obtain ⟨x, listed, same⟩ := List.mem_map.mp repeated
        exact (inside x listed).2.2 (by simp [same])
      · intro x member
        rcases List.mem_cons.mp member with rfl | later
        · exact ⟨List.mem_cons_self, fresh⟩
        · obtain ⟨listed, known, unseen⟩ := inside x later
          exact ⟨List.mem_cons_of_mem _ listed, known, fun old => unseen (List.mem_append_left _ old)⟩
      · intro x member known
        rcases List.mem_cons.mp member with rfl | later
        · exact .inr (by simp)
        · have := covered x later known
          simp only [List.mem_append, List.map_cons, List.mem_cons] at this ⊢
          tauto
    · obtain ⟨new, result, nodup, inside, covered⟩ := ih seen queue
      refine ⟨new, by rw [discover, if_neg fresh, result], nodup, fun x member => ?_, fun x member known => ?_⟩
      · obtain ⟨listed, known, unseen⟩ := inside x member
        exact ⟨List.mem_cons_of_mem _ listed, known, unseen⟩
      · rcases List.mem_cons.mp member with rfl | later
        · exact .inl (by_contra fun unseen => fresh ⟨known, unseen⟩)
        · exact covered x later known

/-- `y` is among the next items of `x`, and its label is one of the universe. -/
def Leads (labels : List String) (label : α → String) (next : α → Except ε (List α)) (x y : α) : Prop :=
  ∃ found, next x = .ok found ∧ y ∈ found ∧ label y ∈ labels

/-- What a search with the queue `queue` and the seen labels `seen` adds to the queue. -/
structure Found (labels : List String) (label : α → String) (next : α → Except ε (List α)) (seen : List String)
    (queue more : List α) : Prop where
  nodup : (more.map label).Nodup
  fresh : ∀ x ∈ more, label x ∈ labels ∧ label x ∉ seen
  reached : ∀ x ∈ more, ∃ y ∈ queue, ReflTransGen (Leads labels label next) y x
  closed : ∀ x ∈ queue ++ more, ∃ found, next x = .ok found ∧
    ∀ y ∈ found, label y ∈ labels → label y ∈ seen ∨ label y ∈ more.map label

theorem visit_yields (labels : List String) (label : α → String) (next : α → Except ε (List α)) (seen : List String)
    (queue : List α) :
    Yields (visit labels label next seen queue)
      (fun result => ∃ more, result = queue ++ more ∧ Found labels label next seen queue more)
      (fun e => ∃ x, (∃ y ∈ queue, ReflTransGen (Leads labels label next) y x) ∧ next x = .error e) := by
  fun_induction visit labels label next seen queue with
  | case1 seen => exact ⟨[], rfl, by simp, by simp, by simp, by simp⟩
  | case2 seen item rest e failed => exact ⟨item, ⟨item, List.mem_cons_self, .refl⟩, failed⟩
  | case3 seen item rest found known ih =>
    obtain ⟨new, discovered, nodup, inside, covered⟩ := discover_eq labels label seen rest found
    rw [discovered] at ih ⊢
    have start : ∀ x, (∃ y ∈ rest ++ new, ReflTransGen (Leads labels label next) y x) →
        ∃ y ∈ item :: rest, ReflTransGen (Leads labels label next) y x := by
      rintro x ⟨y, member, reached⟩
      rcases List.mem_append.mp member with old | fresh
      · exact ⟨y, List.mem_cons_of_mem _ old, reached⟩
      · obtain ⟨listed, inLabels, _⟩ := inside y fresh
        exact ⟨item, List.mem_cons_self, .head ⟨found, known, listed, inLabels⟩ reached⟩
    refine Yields.map (ih.mono (fun _ post => post) ?_) ?_
    · rintro e ⟨x, behind, failed⟩
      exact ⟨x, start x behind, failed⟩
    · rintro _ ⟨more, rfl, later⟩
      refine ⟨new ++ more, by simp, ?_, ?_, ?_, ?_⟩
      · rw [List.map_append, List.nodup_append]
        refine ⟨nodup, later.nodup, fun a first b second same => ?_⟩
        obtain ⟨x, listed, rfl⟩ := List.mem_map.mp second
        exact (later.fresh x listed).2 (List.mem_append_right _ (same ▸ first))
      · intro x member
        rcases List.mem_append.mp member with first | second
        · exact (inside x first).2
        · exact ⟨(later.fresh x second).1, fun old => (later.fresh x second).2 (List.mem_append_left _ old)⟩
      · intro x member
        rcases List.mem_append.mp member with first | second
        · exact start x ⟨x, List.mem_append_right _ first, .refl⟩
        · exact start x (later.reached x second)
      · intro x member
        rw [List.cons_append, List.mem_cons, ← List.append_assoc] at member
        rcases member with rfl | member
        · refine ⟨found, known, fun y listed inLabels => (covered y listed inLabels).imp_right (fun new => ?_)⟩
          rw [List.map_append]
          exact List.mem_append_left _ new
        · obtain ⟨list, listKnown, closed⟩ := later.closed x member
          refine ⟨list, listKnown, fun y listed inLabels => ?_⟩
          have := closed y listed inLabels
          simp only [List.mem_append, List.map_append] at this ⊢
          tauto

/-- The result of a search: exactly what the roots lead to, up to labels, each label once. -/
structure Reached (labels : List String) (label : α → String) (next : α → Except ε (List α)) (roots result : List α) :
    Prop where
  nodup : (result.map label).Nodup
  inside : ∀ x ∈ result, label x ∈ labels
  rootsFound : ∀ x ∈ roots, label x ∈ labels → label x ∈ result.map label
  reached : ∀ x ∈ result, ∃ y ∈ roots, label y ∈ labels ∧ ReflTransGen (Leads labels label next) y x
  closed : ∀ x ∈ result, ∃ found, next x = .ok found ∧ ∀ y ∈ found, label y ∈ labels → label y ∈ result.map label

theorem breadthFirst_yields (labels : List String) (label : α → String) (next : α → Except ε (List α))
    (roots : List α) :
    Yields (breadthFirst labels label next roots) (Reached labels label next roots)
      (fun e => ∃ x, (∃ y ∈ roots, ReflTransGen (Leads labels label next) y x) ∧ next x = .error e) := by
  obtain ⟨new, discovered, nodup, inside, covered⟩ := discover_eq labels label [] [] roots
  rw [breadthFirst, discovered]
  refine (visit_yields labels label next _ _).mono ?_ ?_
  · rintro _ ⟨more, rfl, found⟩
    refine ⟨?_, ?_, ?_, ?_, ?_⟩
    · rw [List.nil_append, List.map_append, List.nodup_append]
      refine ⟨nodup, found.nodup, fun a first b second same => ?_⟩
      obtain ⟨x, listed, rfl⟩ := List.mem_map.mp second
      exact (found.fresh x listed).2 (same ▸ first)
    · intro x member
      rcases List.mem_append.mp member with first | later
      · exact (inside x first).2.1
      · exact (found.fresh x later).1
    · intro x member known
      have := covered x member known
      simp only [List.not_mem_nil, false_or] at this
      rw [List.map_append]
      exact List.mem_append_left _ this
    · intro x member
      rcases List.mem_append.mp member with first | later
      · exact ⟨x, (inside x first).1, (inside x first).2.1, .refl⟩
      · obtain ⟨y, listed, reached⟩ := found.reached x later
        exact ⟨y, (inside y listed).1, (inside y listed).2.1, reached⟩
    · intro x member
      obtain ⟨list, known, closed⟩ := found.closed x member
      refine ⟨list, known, fun y listed inLabels => ?_⟩
      rw [List.map_append, List.mem_append]
      exact closed y listed inLabels
  · rintro e ⟨x, ⟨y, listed, reached⟩, failed⟩
    exact ⟨x, ⟨y, (inside y listed).1, reached⟩, failed⟩

/-- The queue of a search holds items of two successive depths, first those of the lower one, which is `least` or more,
    and nothing that was seen is deeper. -/
structure Frontier (label : α → String) (depth : String → Nat) (least : Nat) (seen : List String) (queue : List α) :
    Prop where
  ordered : (queue.map (fun x => depth (label x))).Pairwise (· ≤ ·)
  deep : ∀ x ∈ queue, least ≤ depth (label x)
  flat : ∀ l ∈ seen, depth l ≤ least + 1
  known : ∀ x ∈ queue, label x ∈ seen

/-- Depths in which labels that were not seen lie at `level`. -/
def deepen (seen : List String) (depth : String → Nat) (level : Nat) (l : String) : Nat :=
  if l ∈ seen then depth l else level

/-- A step of the search puts what the first item leads to one step below it. -/
theorem Frontier.step {depth : String → Nat} {least : Nat} {seen : List String} {item : α} {rest new : List α}
    (frontier : Frontier label depth least seen (item :: rest)) (fresh : ∀ x ∈ new, label x ∉ seen) :
    Frontier label (deepen seen depth (depth (label item) + 1)) (depth (label item)) (seen ++ new.map label)
      (rest ++ new) := by
  have itemDeep := frontier.deep item List.mem_cons_self
  have known : ∀ x ∈ rest, label x ∈ seen := fun x member => frontier.known x (List.mem_cons_of_mem _ member)
  have ordered := frontier.ordered
  rw [List.map_cons, List.pairwise_cons, List.forall_mem_map] at ordered
  have old : ∀ x ∈ rest, deepen seen depth (depth (label item) + 1) (label x) = depth (label x) :=
    fun x member => if_pos (known x member)
  have lower : ∀ x ∈ new, deepen seen depth (depth (label item) + 1) (label x) = depth (label item) + 1 :=
    fun x member => if_neg (fresh x member)
  refine ⟨?_, fun x member => ?_, fun l member => ?_, fun x member => ?_⟩
  · rw [List.map_append, List.pairwise_append, List.map_congr_left old, List.map_congr_left lower]
    refine ⟨ordered.2, ?_, ?_⟩
    · exact List.pairwise_map.mpr (List.pairwise_of_forall_mem_list (fun _ _ _ _ => Nat.le_refl _))
    · simp only [List.forall_mem_map]
      intro x left y _
      have bounded := frontier.flat _ (known x left)
      omega
  · rcases List.mem_append.mp member with before | isNew
    · rw [old x before]
      exact ordered.1 x before
    · rw [lower x isNew]
      omega
  · unfold deepen
    split
    next wasSeen =>
      have bounded := frontier.flat l wasSeen
      omega
    next => exact Nat.le_refl _
  · rcases List.mem_append.mp member with before | isNew
    · exact List.mem_append_left _ (known x before)
    · exact List.mem_append_right _ (List.mem_map_of_mem isNew)

/-- Depths that fit a search: they do not decrease along the result and are at least `least` there, every item of `more`
    lies one step below an item that leads to it, and no item leads deeper than one step. -/
structure Levels (labels : List String) (label : α → String) (next : α → Except ε (List α)) (depth : String → Nat)
    (least : Nat) (result more : List α) : Prop where
  ordered : (result.map (fun x => depth (label x))).Pairwise (· ≤ ·)
  deep : ∀ x ∈ result, least ≤ depth (label x)
  parent : ∀ x ∈ more, ∃ y ∈ result, Leads labels label next y x ∧ depth (label x) = depth (label y) + 1
  near : ∀ x ∈ result, ∀ y, Leads labels label next x y → depth (label y) ≤ depth (label x) + 1

theorem visit_levels {seen : List String} {queue result : List α}
    (visited : visit labels label next seen queue = .ok result) {depth : String → Nat} {least : Nat}
    (frontier : Frontier label depth least seen queue) :
    ∃ depth' more, result = queue ++ more ∧ (∀ l ∈ seen, depth' l = depth l) ∧
      Levels labels label next depth' least result more := by
  fun_induction visit labels label next seen queue generalizing result depth least with
  | case1 seen =>
    cases visited
    exact ⟨depth, [], rfl, fun _ _ => rfl, by simp, by simp, by simp, by simp⟩
  | case2 seen item rest e failed => cases visited
  | case3 seen item rest found isFound ih =>
    obtain ⟨new, discovered, _, inside, covered⟩ := discover_eq labels label seen rest found
    rw [discovered] at ih visited
    obtain ⟨later, visitedLater, rfl⟩ := map_eq_ok_iff.mp visited
    have itemSeen := frontier.known item List.mem_cons_self
    have itemDeep := frontier.deep item List.mem_cons_self
    obtain ⟨depth', more, rfl, same, levels⟩ := ih visitedLater (frontier.step (fun x member => (inside x member).2.2))
    have sameSeen : ∀ l ∈ seen, depth' l = depth l :=
      fun l member => (same l (List.mem_append_left _ member)).trans (if_pos member)
    have sameNew : ∀ x ∈ new, depth' (label x) = depth (label item) + 1 := by
      intro x member
      exact (same _ (List.mem_append_right _ (List.mem_map_of_mem member))).trans (if_neg (inside x member).2.2)
    refine ⟨depth', new ++ more, by simp, sameSeen, ?_, ?_, ?_, ?_⟩
    · rw [List.map_cons, List.pairwise_cons, List.forall_mem_map, sameSeen _ itemSeen]
      exact ⟨levels.deep, levels.ordered⟩
    · intro x member
      rcases List.mem_cons.mp member with rfl | below
      · rw [sameSeen _ itemSeen]
        exact itemDeep
      · exact Nat.le_trans itemDeep (levels.deep x below)
    · intro x member
      rcases List.mem_append.mp member with isNew | below
      · refine ⟨item, List.mem_cons_self, ⟨found, isFound, (inside x isNew).1, (inside x isNew).2.1⟩, ?_⟩
        rw [sameNew x isNew, sameSeen _ itemSeen]
      · obtain ⟨y, listed, leads, lower⟩ := levels.parent x below
        exact ⟨y, List.mem_cons_of_mem _ listed, leads, lower⟩
    · intro x member y leads
      rcases List.mem_cons.mp member with rfl | below
      · obtain ⟨list, isList, listed, inLabels⟩ := leads
        cases isFound.symm.trans isList
        rw [sameSeen _ itemSeen]
        rcases covered y listed inLabels with wasSeen | isNew
        · have bounded := frontier.flat _ wasSeen
          rw [sameSeen _ wasSeen]
          omega
        · obtain ⟨z, zNew, sameLabel⟩ := List.mem_map.mp isNew
          exact Nat.le_of_eq (sameLabel ▸ sameNew z zNew)
      · exact levels.near x below y leads

/-- The items that a search begins with have the labels that come first. -/
theorem discover_labels (seen : List String) (queue : List α) {found : List α} (inside : ∀ x ∈ found, label x ∈ labels) :
    (discover labels label seen queue found).2.map label =
      queue.map label ++ ((found.map label).filter (fun l => l ∉ seen)).eraseDups := by
  induction found generalizing seen queue with
  | nil => simp [discover]
  | cons item rest ih =>
    have restInside : ∀ x ∈ rest, label x ∈ labels := fun x member => inside x (List.mem_cons_of_mem _ member)
    by_cases old : label item ∈ seen
    · rw [discover, if_neg (fun fresh => fresh.2 old), ih seen queue restInside, List.map_cons,
        List.filter_cons_of_neg (by simpa)]
    · have apart : (rest.map label).filter (fun l => l ∉ seen ++ [label item]) =
          ((rest.map label).filter (fun l => l ∉ seen)).filter (fun l => !(l == label item)) := by
        rw [List.filter_filter]
        refine List.filter_congr (fun l _ => Bool.eq_iff_iff.mpr ?_)
        simp [and_comm]
      rw [discover, if_pos ⟨inside item List.mem_cons_self, old⟩, ih _ _ restInside, List.map_cons,
        List.filter_cons_of_pos (by simpa), List.eraseDups_cons, apart]
      simp

/-- A search that succeeds begins with its roots, each at its first place, and goes on by depth. -/
theorem breadthFirst_levels {roots result : List α} (searched : breadthFirst labels label next roots = .ok result)
    (inside : ∀ x ∈ roots, label x ∈ labels) :
    ∃ depth first more, result = first ++ more ∧ first.map label = (roots.map label).eraseDups ∧
      (∀ x ∈ first, x ∈ roots ∧ depth (label x) = 0) ∧ Levels labels label next depth 0 result more := by
  have labelled := discover_labels [] [] inside
  obtain ⟨new, discovered, _, isRoot, _⟩ := discover_eq labels label [] [] roots
  rw [breadthFirst, discovered] at searched
  rw [discovered] at labelled
  have start : Frontier label (fun _ => 0) 0 (new.map label) new := by
    refine ⟨List.pairwise_map.mpr ?_, fun _ _ => Nat.le_refl _, fun _ _ => Nat.zero_le _,
      fun x member => List.mem_map_of_mem member⟩
    exact List.pairwise_of_forall_mem_list (fun _ _ _ _ => Nat.le_refl _)
  obtain ⟨depth, more, rfl, same, levels⟩ := visit_levels searched start
  refine ⟨depth, new, more, rfl, by simpa using labelled, fun x member => ⟨(isRoot x member).1, ?_⟩, levels⟩
  exact same _ (List.mem_map_of_mem member)

/-- A search over labels finds exactly the labels of the universe that can be reached within it. -/
theorem mem_reach_iff {labels : List String} {next : String → List String} {roots : List String} {y : String} :
    y ∈ reach labels (fun id => id) next roots ↔
      ∃ x ∈ roots, x ∈ labels ∧ ReflTransGen (fun a b => b ∈ next a ∧ b ∈ labels) x y := by
  have outcome := breadthFirst_yields labels (fun id => id)
    (fun item => (.ok (next item) : Except Empty (List String))) roots
  rw [reach]
  cases result : breadthFirst labels (fun id => id) (fun item => (.ok (next item) : Except Empty (List String))) roots with
  | error e => exact e.elim
  | ok found =>
    have reached := outcome.of_eq_ok result
    dsimp only
    constructor
    · intro member
      obtain ⟨x, listed, known, chain⟩ := reached.reached y member
      refine ⟨x, listed, known, ReflTransGen.mono ?_ _ _ chain⟩
      rintro a b ⟨list, same, listed, inLabels⟩
      cases same
      exact ⟨listed, inLabels⟩
    · rintro ⟨x, listed, known, chain⟩
      induction chain with
      | refl => simpa using reached.rootsFound x listed known
      | tail _ step ih =>
        obtain ⟨list, same, closed⟩ := reached.closed _ ih
        cases same
        simpa using closed _ step.1 step.2

section Map
variable {β : Type} {labels' : List String} {label' : β → String} {next' : β → Except ε (List β)} (image : α → β)

theorem discover_map (sameLabel : ∀ x, label' (image x) = label x) {found : List α}
    (sameLabels : ∀ x ∈ found, label x ∈ labels' ↔ label x ∈ labels) (seen : List String) (queue : List α) :
    discover labels' label' seen (queue.map image) (found.map image) =
      ((discover labels label seen queue found).1, (discover labels label seen queue found).2.map image) := by
  induction found generalizing seen queue with
  | nil => rfl
  | cons x rest ih =>
    have known := sameLabels x List.mem_cons_self
    have later := ih (fun y member => sameLabels y (List.mem_cons_of_mem _ member))
    rw [List.map_cons, discover, discover, sameLabel]
    simp only [known]
    by_cases fresh : label x ∈ labels ∧ label x ∉ seen
    · rw [if_pos fresh, if_pos fresh, ← later, List.map_append]
      rfl
    · rw [if_neg fresh, if_neg fresh, later]

/-- A search that runs the same at the images of all items it comes to finds their images. -/
theorem visit_map (sameLabel : ∀ x, label' (image x) = label x) {seen : List String} {queue result : List α}
    (visited : visit labels label next seen queue = .ok result)
    (same : ∀ x ∈ result, ∀ found, next x = .ok found →
      next' (image x) = .ok (found.map image) ∧ ∀ y ∈ found, label y ∈ labels' ↔ label y ∈ labels) :
    visit labels' label' next' seen (queue.map image) = .ok (result.map image) := by
  fun_induction visit labels label next seen queue generalizing result with
  | case1 seen =>
    cases visited
    rw [List.map_nil, visit]
  | case2 seen item rest e failed => cases visited
  | case3 seen item rest found known ih =>
    cases later : visit labels label next (discover labels label seen rest found).1
        (discover labels label seen rest found).2 with
    | error e =>
      rw [later] at visited
      cases visited
    | ok more =>
      rw [later] at visited
      cases visited
      obtain ⟨known', sameLabels⟩ := same item List.mem_cons_self found known
      have further := ih later (fun x member => same x (List.mem_cons_of_mem _ member))
      rw [List.map_cons, visit, known']
      simp only [discover_map image sameLabel sameLabels, further]
      rfl

theorem breadthFirst_map (sameLabel : ∀ x, label' (image x) = label x) {roots result : List α}
    (searched : breadthFirst labels label next roots = .ok result)
    (sameRoots : ∀ x ∈ roots, label x ∈ labels' ↔ label x ∈ labels)
    (same : ∀ x ∈ result, ∀ found, next x = .ok found →
      next' (image x) = .ok (found.map image) ∧ ∀ y ∈ found, label y ∈ labels' ↔ label y ∈ labels) :
    breadthFirst labels' label' next' (roots.map image) = .ok (result.map image) := by
  have started := discover_map image sameLabel sameRoots [] []
  rw [List.map_nil] at started
  rw [breadthFirst, started]
  exact visit_map image sameLabel searched same

end Map
end DspPatch.Search
