import DspPatch.Proofs.Draft.Fusion
import DspPatch.Proofs.Program

/-!
What the frame loop and the functions of the cold groups are put together from: the loop code of nodes, and inlet code.
The lists `frameParts` and `groupParts` say from which, in order. The code of an inlet of a hot node is in the frame loop
exactly if no cold group feeds the inlet, and otherwise in the functions of the groups that feed it.
-/
namespace DspPatch
namespace Sequence

/-- Code stands as a whole in a sequence. -/
def Emits (s code : Sequence) : Prop := ∃ before after, s = .ofElements (before ++ code.content ++ after)

theorem push_ne_nil {s : Sequence} (filled : s.content ≠ []) (next : Element) : (s.push next).content ≠ [] := by
  cases next with
  | code text =>
    show (s.pushCode text).content ≠ []
    unfold pushCode
    dsimp only
    split
    · exact filled
    · unfold appendCode
      split <;> simp
  | _ => exact List.append_ne_nil_of_left_ne_nil filled _

theorem pushAll_ne_nil {s : Sequence} (filled : s.content ≠ []) (elements : List Element) :
    (s.pushAll elements).content ≠ [] := by
  induction elements generalizing s with
  | nil => exact filled
  | cons first rest ih => exact ih (push_ne_nil filled first)

/-- Where there are no elements, no code is emitted that would leave some. -/
theorem not_emits_of_nil {s code : Sequence} (none : s.content = []) (visible : (ofElements code.content).content ≠ []) :
    ¬s.Emits code := by
  rintro ⟨before, after, rfl⟩
  have pushed : ofElements (before ++ code.content ++ after) =
      ((ofElements before).pushAll code.content).pushAll after := by
    simp only [ofElements, pushAll, List.foldl_append]
  rw [pushed] at none
  refine pushAll_ne_nil ?_ after none
  rcases ofElements before with ⟨_ | ⟨first, rest⟩⟩
  · exact visible
  · exact pushAll_ne_nil (List.cons_ne_nil first rest) code.content

end Sequence

namespace Draft

/-- A part of the code of a draft. -/
inductive CodePart where
  | inlet (place : Endpoint)
  | loop (id : String)
deriving DecidableEq

/-- The code of a part, which is empty if there is none. -/
def CodePart.code (d : Draft) : CodePart → Sequence
  | .inlet place => ((d.nodes.get? place.node).bind (fun m => m.inletDsp.get? place.portlet)).getD .empty
  | .loop id => ((d.nodes.get? id).bind NodeDraft.loop).getD .empty

/-- The code of parts, one after the other. -/
def written (d : Draft) (parts : List CodePart) : Sequence :=
  .ofElements (parts.flatMap (fun part => (part.code d).content))

/-- The inlets of a node that have code and that no cold group feeds. -/
def inletParts (d : Draft) (id : String) : List CodePart :=
  ((((d.nodes.get? id).map (fun m => m.inletDsp.keys)).getD []).filter (fun inlet => ⟨id, inlet⟩ ∉ d.coldFed)).map
    (fun inlet => .inlet ⟨id, inlet⟩)

/-- What a hot node does in a frame. -/
def hotParts (d : Draft) (id : String) : List CodePart := d.inletParts id ++ [.loop id]

/-- The parts of the frame loop. -/
def frameParts (d : Draft) : List CodePart := d.partition.hot.traversal.flatMap d.hotParts

/-- The parts of the function of a cold group, some members of which may be inlined: the loops of the others, then the
    inlets that the group feeds. -/
def groupParts (inlined : List String) (c : ColdGroup) : List CodePart :=
  (c.group.without inlined).traversal.map .loop ++ (c.sinkConnections.map Connection.sink).eraseDups.map .inlet

variable {d : Draft} {s : Symbols} {p : Partition}

theorem emits_written {parts : List CodePart} {part : CodePart} (member : part ∈ parts) :
    (d.written parts).Emits (part.code d) := by
  obtain ⟨earlier, later, rfl⟩ := List.append_of_mem member
  refine ⟨earlier.flatMap (fun part => (part.code d).content), later.flatMap (fun part => (part.code d).content), ?_⟩
  rw [written, List.flatMap_append, List.flatMap_cons, List.append_assoc]

theorem hotElements_eq {id : String} {elements : List Element} (made : d.hotElements id = .ok elements) :
    elements = (d.hotParts id).flatMap (fun part => (part.code d).content) := by
  obtain ⟨m, read, same⟩ := bind_eq_ok_iff.mp made
  cases same
  have stored := node_eq_ok_iff.mp read
  rw [hotParts, inletParts, stored, Option.map_some, Option.getD_some, List.flatMap_append, List.flatMap_map, Table.keys,
    List.filter_map, List.flatMap_map]
  congr 1
  · refine List.flatMap_congr (fun entry member => ?_)
    have listed := Table.get?_eq_some_iff.mpr (List.mem_filter.mp member).1
    simp [CodePart.code, stored, listed]
  · simp [CodePart.code, stored]

theorem hotBody_eq {body : Sequence} (made : d.hotBody = .ok body) : body = d.written d.frameParts := by
  obtain ⟨elements, each, same⟩ := bind_eq_ok_iff.mp made
  cases same
  have lists := map_eq_map_of_forall₂ (fun id => (d.hotParts id).flatMap (fun part => (part.code d).content)) id
    ((mapM_eq_ok_iff.mp each).imp (fun _ _ made => (hotElements_eq made).symm))
  rw [List.map_id] at lists
  rw [written, frameParts, List.flatMap_assoc, ← lists, List.flatMap_def]

theorem coldFunction_eq {c : ColdGroup} {f : Func} {inlined : List String}
    (made : d.coldFunction { c with group := c.group.without inlined } = .ok f) :
    f = messageFunction c.function (d.written (groupParts inlined c)) := by
  obtain ⟨loops, eachLoop, made⟩ := bind_eq_ok_iff.mp made
  obtain ⟨inlets, eachInlet, same⟩ := bind_eq_ok_iff.mp made
  cases same
  have loopLists := map_eq_map_of_forall₂ (fun id => ((CodePart.loop id).code d).content) id
    ((mapM_eq_ok_iff.mp eachLoop).imp (fun id content made => by
      obtain ⟨m, read, same⟩ := bind_eq_ok_iff.mp made
      cases same
      simp [CodePart.code, node_eq_ok_iff.mp read]))
  have inletLists := map_eq_map_of_forall₂ (fun place => ((CodePart.inlet place).code d).content) id
    ((mapM_eq_ok_iff.mp eachInlet).imp (fun place content made => by
      obtain ⟨m, read, same⟩ := bind_eq_ok_iff.mp made
      cases same
      simp [CodePart.code, node_eq_ok_iff.mp read]))
  rw [List.map_id] at loopLists inletLists
  rw [written, groupParts, List.flatMap_append, List.flatMap_map, List.flatMap_map, ← loopLists, ← inletLists,
    List.flatMap_def, List.flatMap_def]

/-- The program of a draft has a frame loop and a function for each cold group, with these parts. -/
theorem written_program {program : Sequence} (assembled : d.program s = .ok program)
    (partition : d.partition = p.without d.inlinedIds) :
    (∃ loop, d.frameLoop s = .ok loop ∧ .frameLoop loop ∈ program.content ∧ loop.body = d.written d.frameParts) ∧
      ∀ c ∈ p.cold, ∃ f, d.coldFunction { c with group := c.group.without d.inlinedIds } = .ok f ∧
        .function f ∈ program.content ∧ f = messageFunction c.function (d.written (groupParts d.inlinedIds c)) := by
  obtain ⟨_, assembled⟩ := then_eq_ok_iff.mp assembled
  obtain ⟨globals, _, assembled⟩ := bind_eq_ok_iff.mp assembled
  obtain ⟨loop, loopMade, assembled⟩ := bind_eq_ok_iff.mp assembled
  obtain ⟨cold, coldMade, assembled⟩ := bind_eq_ok_iff.mp assembled
  cases assembled
  constructor
  · refine ⟨loop, loopMade, Sequence.mem_pushAll (by simp) (.inr ?_), ?_⟩
    · simp only [List.mem_append, List.mem_singleton, true_or, or_true]
    · obtain ⟨hook, _, loopMade⟩ := bind_eq_ok_iff.mp loopMade
      obtain ⟨body, bodyMade, same⟩ := bind_eq_ok_iff.mp loopMade
      cases same
      exact hotBody_eq bodyMade
  · intro c listed
    have left : { c with group := c.group.without d.inlinedIds } ∈ d.partition.cold := by
      rw [partition]
      exact List.mem_map_of_mem listed
    obtain ⟨f, member, made⟩ := exists_right_of_forall₂ (mapM_eq_ok_iff.mp coldMade) left
    refine ⟨f, made, Sequence.mem_pushAll (by simp) (.inr ?_), coldFunction_eq made⟩
    simp only [List.mem_append, List.mem_map_of_mem member, true_or, or_true]

theorem mem_coldFed_iff (partition : d.partition = p.without d.inlinedIds) {place : Endpoint} :
    place ∈ d.coldFed ↔ ∃ c ∈ p.cold, ∃ k ∈ c.sinkConnections, k.sink = place := by
  rw [coldFed, partition]
  simp only [Partition.without, List.flatMap_map, List.mem_flatMap, List.mem_map]

theorem mem_inletParts_iff {id : String} {m : NodeDraft} (stored : d.nodes.get? id = some m) {part : CodePart} :
    part ∈ d.inletParts id ↔ ∃ inlet ∈ m.inletDsp.keys, (⟨id, inlet⟩ : Endpoint) ∉ d.coldFed ∧ part = .inlet ⟨id, inlet⟩ := by
  simp only [inletParts, stored, Option.map_some, Option.getD_some, List.mem_map, List.mem_filter, decide_eq_true_eq]
  exact ⟨fun ⟨inlet, ⟨coded, away⟩, same⟩ => ⟨inlet, coded, away, same.symm⟩,
    fun ⟨inlet, coded, away, same⟩ => ⟨inlet, ⟨coded, away⟩, same.symm⟩⟩

theorem loop_not_mem_inletParts (id other : String) : .loop id ∉ d.inletParts other := by
  intro member
  obtain ⟨_, _, same⟩ := List.mem_map.mp member
  cases same

theorem inlet_mem_frameParts_iff_own {place : Endpoint} :
    .inlet place ∈ d.frameParts ↔ place.node ∈ d.partition.hot.traversal ∧ .inlet place ∈ d.inletParts place.node := by
  rw [frameParts, List.mem_flatMap]
  constructor
  · rintro ⟨id, hot, member⟩
    rcases List.mem_append.mp member with own | isLoop
    · obtain ⟨_, _, same⟩ := List.mem_map.mp own
      cases same
      exact ⟨hot, own⟩
    · cases List.mem_singleton.mp isLoop
  · rintro ⟨hot, own⟩
    exact ⟨place.node, hot, List.mem_append_left _ own⟩

/-- The code of an inlet of a hot node is in the frame loop if no cold group feeds the inlet. -/
theorem inlet_mem_frameParts_iff {id inlet : String} {m : NodeDraft} (hot : id ∈ d.partition.hot.traversal)
    (stored : d.nodes.get? id = some m) (coded : inlet ∈ m.inletDsp.keys) :
    .inlet ⟨id, inlet⟩ ∈ d.frameParts ↔ (⟨id, inlet⟩ : Endpoint) ∉ d.coldFed := by
  rw [inlet_mem_frameParts_iff_own, mem_inletParts_iff stored]
  constructor
  · rintro ⟨_, _, _, away, same⟩
    cases same
    exact away
  · intro away
    exact ⟨hot, inlet, coded, away, rfl⟩

/-- Wherever the loop code of a node stands, all inlet code of the node stands before it. -/
theorem mem_of_split_at_loop {id : String} {part : CodePart} (own : part ∈ d.inletParts id) {ids : List String}
    {earlier later : List CodePart} (split : ids.flatMap d.hotParts = earlier ++ .loop id :: later) : part ∈ earlier := by
  induction ids generalizing earlier with
  | nil => cases earlier <;> cases split
  | cons other rest ih =>
    rw [List.flatMap_cons, hotParts, List.append_assoc, List.append_eq_append_iff] at split
    rcases split with ⟨more, rfl, split⟩ | ⟨more, inlets, split⟩
    · -- The loop code is that of `other`, or it comes later.
      rcases List.cons_eq_append_iff.mp split with ⟨rfl, same⟩ | ⟨more, rfl, behind⟩
      · cases same
        rwa [List.append_nil]
      · exact List.mem_append_right _ (List.mem_cons_of_mem _ (ih behind))
    · -- Otherwise it would be among the inlets of `other`, unless it follows them directly.
      rcases List.cons_eq_append_iff.mp split with ⟨rfl, same⟩ | ⟨more, rfl, _⟩
      · cases same
        rw [List.append_nil] at inlets
        exact inlets ▸ own
      · exact absurd (inlets ▸ List.mem_append_right _ List.mem_cons_self) (loop_not_mem_inletParts id other)

/-- Inlet code that is in the frame loop stands before the loop code of its node. -/
theorem inlet_before_loop {place : Endpoint} (member : .inlet place ∈ d.frameParts) :
    .loop place.node ∈ d.frameParts ∧
      ∀ earlier later, d.frameParts = earlier ++ .loop place.node :: later → .inlet place ∈ earlier := by
  obtain ⟨hot, own⟩ := inlet_mem_frameParts_iff_own.mp member
  refine ⟨List.mem_flatMap.mpr ⟨_, hot, List.mem_append_right _ List.mem_cons_self⟩, fun earlier later split => ?_⟩
  exact mem_of_split_at_loop own split

theorem inlet_mem_groupParts_iff {inlined : List String} {c : ColdGroup} {place : Endpoint} :
    .inlet place ∈ groupParts inlined c ↔ ∃ k ∈ c.sinkConnections, k.sink = place := by
  simp [groupParts, List.mem_eraseDups]

end Draft
end DspPatch
