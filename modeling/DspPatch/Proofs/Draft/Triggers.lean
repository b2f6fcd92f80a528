import DspPatch.Proofs.Draft.Fusion
import DspPatch.Proofs.Draft.Messages

/-!
Who runs a cold group. The functions of cold groups have names that neither receivers nor listeners have, so in the callees
of a sender they stand behind all receivers. The function of a group is among the callees exactly if one of the sinks is
left in the group: a sink that was inlined is in no group any more, and nobody runs the group for it.
-/
namespace DspPatch.Draft
variable {s : Symbols} {p : Partition}

theorem toList_coldName (group : Nat) :
    s!"COLD_{toString group}".toList = ['C', 'O', 'L', 'D', '_'] ++ Nat.toDigits 10 group := by
  simp [toString]

theorem coldName_injective {a b : Nat} (same : s!"COLD_{toString a}" = s!"COLD_{toString b}") : a = b := by
  have lists := congrArg String.toList same
  rw [toList_coldName, toList_coldName] at lists
  exact Text.toDigits_injective (List.append_cancel_left lists)

theorem coldName_ne_portlet (group : Nat) (slot : PortletSlot) (stem own : String) :
    s!"COLD_{toString group}" ≠ s!"{stem}_{slot.mark}_{own}" := by
  intro same
  have mark : 'S' ∈ s!"{stem}_{slot.mark}_{own}".toList := by cases slot <;> simp [toString, PortletSlot.mark]
  rw [← same, toList_coldName, List.mem_append] at mark
  rcases mark with letter | digit
  · revert letter
    decide
  · have isDigit := Nat.isDigit_of_mem_toDigits (by decide) (by decide) digit
    revert isDigit
    decide

theorem coldName_ne_listener (group : Nat) (id outlet : String) :
    s!"COLD_{toString group}" ≠ s!"outletListeners_{id}_{outlet}" := by
  intro same
  have lists := congrArg String.toList same
  rw [toList_coldName] at lists
  simp [toString] at lists

/-- The function of a cold group is nobody whom a message is sent to. -/
theorem coldName_not_planned (shaped : s.Shaped) {listened : List String} {id outlet : String} {n : Node}
    {plan : List String} (planned : PlanOf s listened id n outlet plan) (group : Nat) : s!"COLD_{toString group}" ∉ plan := by
  obtain ⟨listener, receivers, rfl, heard, _, related⟩ := planned
  intro member
  rcases List.mem_append.mp member with isListener | isReceiver
  · exact coldName_ne_listener group id outlet (shaped _ _ (heard _ (Option.mem_toList.mp isListener)))
  · obtain ⟨sink, _, stored⟩ := exists_left_of_forall₂ related isReceiver
    obtain ⟨_, stem, _, same⟩ := shaped _ _ stored
    exact coldName_ne_portlet group .rcvs stem sink.portlet same

theorem Numbered.function_eq (numbered : Numbered s p.cold) (shaped : s.Shaped) {c : ColdGroup} (member : c ∈ p.cold) :
    c.function = s!"COLD_{toString c.id}" :=
  shaped _ _ (numbered.named c member)

theorem Numbered.function_injective (numbered : Numbered s p.cold) (shaped : s.Shaped) {c d : ColdGroup}
    (cListed : c ∈ p.cold) (dListed : d ∈ p.cold) (same : c.function = d.function) : c = d := by
  rw [numbered.function_eq shaped cListed, numbered.function_eq shaped dListed] at same
  have distinct : (p.cold.map ColdGroup.id).Nodup := numbered.ids ▸ List.nodup_range
  exact List.inj_on_of_nodup_map distinct cListed dListed (coldName_injective same)

theorem Numbered.without (numbered : Numbered s p.cold) (ids : List String) : Numbered s (p.without ids).cold := by
  constructor
  · rw [Partition.without, List.map_map, List.length_map]
    exact numbered.ids
  · intro c member
    obtain ⟨whole, listed, rfl⟩ := List.mem_map.mp member
    exact numbered.named whole listed

theorem exists_of_trigger? {id function : String} (runs : p.trigger? id = some function) :
    ∃ c ∈ p.cold, c.function = function := by
  obtain ⟨c, found, same⟩ := Option.map_eq_some_iff.mp runs
  exact ⟨c, List.mem_reverse.mp (List.mem_of_find?_eq_some found), same⟩

/-- The callees of an outlet are those of its plan, and then the functions of the groups of its sinks, each once. -/
theorem callees_eq_append (numbered : Numbered s p.cold) (shaped : s.Shaped) {listened : List String}
    {id outlet : String} {n : Node} {plan : List String} (planned : PlanOf s listened id n outlet plan)
    (sinks : List Endpoint) :
    callees p plan sinks = plan ++ (sinks.filterMap (fun sink => p.trigger? sink.node)).eraseDups := by
  have new : ∀ function ∈ sinks.filterMap (fun sink => p.trigger? sink.node), function ∉ plan := by
    intro function member
    obtain ⟨sink, _, runs⟩ := List.mem_filterMap.mp member
    obtain ⟨c, listed, rfl⟩ := exists_of_trigger? runs
    rw [numbered.function_eq shaped listed]
    exact coldName_not_planned shaped planned c.id
  rw [callees, foldl_appendNew, List.filter_eq_self.mpr (fun function member => by simpa using new function member)]

/-- A message to the node runs the group: the node is left in it, and no later group holds the node. -/
def Triggers (p : Partition) (inlined : List String) (group : ColdGroup) (id : String) : Prop :=
  id ∈ group.group.traversal ∧ id ∉ inlined ∧ ∀ other, [group, other].Sublist p.cold → id ∉ other.group.traversal

theorem trigger?_without_iff (numbered : Numbered s p.cold) (shaped : s.Shaped) {inlined : List String} {group : ColdGroup}
    (member : group ∈ p.cold) (id : String) :
    (p.without inlined).trigger? id = some group.function ↔ Triggers p inlined group id := by
  have nodup : p.cold.Nodup := List.Nodup.of_map ColdGroup.id (numbered.ids ▸ List.nodup_range)
  have left : ∀ c : ColdGroup, (c.group.without inlined).traversal.contains id = true ↔
      id ∈ c.group.traversal ∧ id ∉ inlined := by
    intro c
    rw [List.contains_iff_mem, Group.without, List.mem_filter, Bool.not_eq_true', List.contains_eq_mem,
      decide_eq_false_iff_not]
  have found : (p.without inlined).trigger? id = (p.cold.reverse.find?
      (fun c => (c.group.without inlined).traversal.contains id)).map ColdGroup.function := by
    rw [Partition.trigger?, Partition.without, ← List.map_reverse, List.find?_map, Option.map_map]
    rfl
  have last : (p.without inlined).trigger? id = some group.function ↔
      p.cold.reverse.find? (fun c => (c.group.without inlined).traversal.contains id) = some group := by
    rw [found, Option.map_eq_some_iff]
    constructor
    · rintro ⟨c, isLast, same⟩
      have listed : c ∈ p.cold := List.mem_reverse.mp (List.mem_of_find?_eq_some isLast)
      rwa [numbered.function_injective shaped listed member same] at isLast
    · exact fun isLast => ⟨group, isLast, rfl⟩
  rw [last, find?_reverse_eq_some_iff nodup member, left, Triggers, and_assoc]
  refine and_congr_right (fun inside => and_congr_right (fun stays => forall₂_congr (fun other later => ?_)))
  rw [Bool.eq_false_iff, ne_eq, left]
  exact ⟨fun away held => away ⟨held, stays⟩, fun away both => away both.1⟩

/-- The function of a group stands behind the receivers of a plan, if it stands there at all. -/
theorem pair_sublist_callees_iff (numbered : Numbered s p.cold) (shaped : s.Shaped) {listened : List String}
    {id outlet : String} {n : Node} {plan : List String} (planned : PlanOf s listened id n outlet plan)
    {inlined : List String} {group : ColdGroup} (member : group ∈ p.cold) {receiver : String} (listed : receiver ∈ plan) :
    [receiver, group.function].Sublist (callees (p.without inlined) plan (n.sinksOf outlet)) ↔
      ∃ sink ∈ n.sinksOf outlet, Triggers p inlined group sink.node := by
  have new : group.function ∉ plan := by
    rw [numbered.function_eq shaped member]
    exact coldName_not_planned shaped planned group.id
  have called : group.function ∈ callees (p.without inlined) plan (n.sinksOf outlet) ↔
      ∃ sink ∈ n.sinksOf outlet, Triggers p inlined group sink.node := by
    rw [mem_callees_iff, or_iff_right new]
    exact exists_congr (fun sink => and_congr_right (fun _ => trigger?_without_iff numbered shaped member sink.node))
  rw [← called]
  constructor
  · exact fun pair => pair.subset (by simp)
  · exact fun added => pair_sublist_callees listed added new

end DspPatch.Draft
