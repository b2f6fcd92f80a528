import DspPatch.Draft.Certificate
import DspPatch.Proofs.Draft.Fusion
import DspPatch.Proofs.Draft.Messages
import DspPatch.Proofs.Draft.NodeCode

/-!
The certificate of a finished draft. Its obligations hold of every draft whose groups are disjoint, lie within the draft
and are named, and whose inlined nodes are in no group and have no variables; finishing the code of the nodes keeps all
of this. So the certificate never refuses what the passes have made.
-/
namespace DspPatch.Draft
open Build
variable {input : BuildInput} {w : Workspace}

/-- The workspace after the code of all nodes is finished. -/
structure Finished (before after : Workspace) : Prop where
  keeps : KeepsRest before after
  keys : after.draft.nodes.keys = before.draft.nodes.keys
  staged : ∀ m ∈ after.draft.nodes.values, m.stage = .finalized
  nodes : ∀ id m, before.draft.nodes.get? id = some m → ∃ m', after.draft.nodes.get? id = some m' ∧ CodeMade m m'

theorem finalizeNodeCode_ends (staged : ∀ m ∈ w.draft.nodes.values, m.stage = .messagesSynthesized)
    (present : ∀ id ∈ w.draft.nodes.keys, ∃ n, input.graph.get? id = some n) :
    Ends (finalizeNodeCode input) w (fun _ after => Finished w after)
      (fun e => Finishable input [] w → FinishFault input e) := by
  refine Ends.pass staged (Ends.nodeIds_bind ?_)
  refine (Ends.eachNode w.draft.nodes.nodup_keys (fun _ _ => CodeMade) (fun _ made => made)
    (fun done now => KeepsRest w now ∧ (Finishable input [] w → Finishable input done now)) ?_ ?_).mono ?_ (fun _ bad => bad)
  · exact ⟨⟨.refl _, w.draft.nodes, w.draft.types, rfl⟩, fun finishable => finishable⟩
  · rintro done id rest now split ⟨keeps, finishable⟩ _ same _
    have member : id ∈ w.draft.nodes.keys := by simp [split]
    have fresh : id ∉ done := by
      have nodup := w.draft.nodes.nodup_keys
      rw [split, List.nodup_append] at nodup
      exact fun earlier => nodup.2.2 id earlier id List.mem_cons_self rfl
    obtain ⟨n, found⟩ := present id member
    obtain ⟨m, stored⟩ := Table.mem_keys_iff.mp member
    refine (finalizeNode_ends fresh found (same.trans stored)).mono ?_ (fun e bad start => bad (finishable start))
    rintro _ after ⟨⟨keepsNext, finishableNext⟩, changed⟩
    exact ⟨keepsNext.grows, ⟨keeps.trans keepsNext, fun start => finishableNext (finishable start)⟩, changed⟩
  · rintro _ after ⟨_, ⟨⟨grows, nodes, types, same⟩, _⟩, changed⟩
    refine ⟨⟨grows, _, types, by rw [atStage, same]⟩, ?_, stage_atStage _ _, fun id m stored => ?_⟩
    · rw [atStage, Table.keys_map, changed.keys]
    · obtain ⟨m', stored', state, initialization, loop, resolved, inletDsp, _, rfl⟩ :=
        changed.changed id (Table.mem_keys_of_get? stored) m stored
      refine ⟨_, by rw [get?_atStage, stored']; rfl, state, initialization, loop, resolved, inletDsp, _, rfl⟩

/-- What the certificate asks for, apart from the stage. -/
structure Consistent (d : Draft) (s : Symbols) : Prop where
  nodup : d.partition.members.Nodup
  within : ∀ id ∈ d.partition.members, id ∈ d.nodes.keys
  named : ∀ c ∈ d.partition.cold, s.at? (.coldGroup (toString c.id)) = some c.function
  elided : ∀ id m, d.nodes.get? id = some m → m.inlined = true → id ∉ d.partition.members ∧ m.signalOuts = ∅

theorem Consistent.holds {d : Draft} {s : Symbols} (consistent : Consistent d s)
    (finalized : ∀ m ∈ d.nodes.values, m.stage = .finalized) : (d.certificate s).holds = true := by
  have within : d.partition.members.all d.nodes.contains = true :=
    List.all_eq_true.mpr (fun id member => Table.contains_iff.mpr (consistent.within id member))
  have named : d.partition.cold.all (fun c => s.coldGroups.entries.get? (toString c.id) == some c.function) = true := by
    refine List.all_eq_true.mpr (fun c member => ?_)
    rw [beq_iff_eq]
    exact consistent.named c member
  have staged : d.nodes.values.all (fun n => n.stage = .finalized) = true :=
    List.all_eq_true.mpr (fun m member => decide_eq_true (finalized m member))
  simp only [Certificate.holds, Certificate.obligations, certificate, List.all_cons, List.all_nil, staged, within, named,
    decide_eq_true consistent.nodup, Bool.true_and, Bool.and_true]
  -- What is left is that inlined nodes are elided.
  refine List.all_eq_true.mpr ?_
  rintro ⟨id, m⟩ entry
  cases inlined : m.inlined with
  | false => rfl
  | true =>
    obtain ⟨outside, empty⟩ := consistent.elided id m (Table.get?_eq_some_iff.mpr entry) inlined
    have away : d.partition.members.contains id = false := by simpa using outside
    simp only [away, empty]
    rfl

theorem Partitioned.consistent {full order firsts : List String} {p : Partition} (runnable : input.graph.Runnable full)
    (run : input.graph.RunOrder order) (partitioned : Partitioned input full order firsts p w) :
    Consistent w.draft w.symbols := by
  have members : w.draft.partition.members = p.members.filter (fun id => !w.draft.inlinedIds.contains id) := by
    rw [partitioned.partition, Partition.members_without]
  refine ⟨?_, fun id member => ?_, fun c member => ?_, fun id m stored inlined => ⟨?_, partitioned.elided id m stored inlined⟩⟩
  · rw [members]
    exact (partitioned.split.nodup_members run).filter _
  · rw [members, List.mem_filter, partitioned.split.mem_members_iff run] at member
    exact (partitioned.keys id).mpr ((runnable.complete id).mpr (run.known id ((run.mem_iff id).mpr member.1)))
  · rw [partitioned.partition] at member
    obtain ⟨whole, listed, rfl⟩ := List.mem_map.mp member
    exact partitioned.numbered.named whole listed
  · have listed : id ∈ w.draft.inlinedIds := mem_inlinedIds_iff.mpr ⟨m, stored, inlined⟩
    rw [members, List.mem_filter]
    simp [listed]

/-- The passes after the partition keep the groups, and which nodes are inlined. -/
structure KeepsGroups (before after : Workspace) : Prop where
  grows : before.symbols.Grows after.symbols
  partition : after.draft.partition = before.draft.partition
  keys : after.draft.nodes.keys = before.draft.nodes.keys
  nodes : ∀ id m, before.draft.nodes.get? id = some m → ∃ m', after.draft.nodes.get? id = some m' ∧
    m'.inlined = m.inlined ∧ m'.signalOuts = m.signalOuts

theorem Synthesized.keepsGroups {after : Workspace} (synthesized : Synthesized input w after) : KeepsGroups w after := by
  obtain ⟨nodes, callers, same⟩ := synthesized.rest
  refine ⟨synthesized.grows, by rw [same], synthesized.keys, fun id m stored => ?_⟩
  obtain ⟨_, m', _, stored', _, _, _, rfl, _, _⟩ := synthesized.nodes id m stored
  exact ⟨_, stored', rfl, rfl⟩

theorem Finished.keepsGroups {after : Workspace} (finished : Finished w after) : KeepsGroups w after := by
  obtain ⟨nodes, types, same⟩ := finished.keeps.rest
  refine ⟨finished.keeps.grows, by rw [same], finished.keys, fun id m stored => ?_⟩
  obtain ⟨m', stored', _, _, _, _, _, _, rfl⟩ := finished.nodes id m stored
  exact ⟨_, stored', rfl, rfl⟩

namespace KeepsGroups
variable {before after : Workspace}

theorem trans {last : Workspace} (first : KeepsGroups before after) (second : KeepsGroups after last) :
    KeepsGroups before last := by
  refine ⟨first.grows.trans second.grows, second.partition.trans first.partition, second.keys.trans first.keys,
    fun id m stored => ?_⟩
  obtain ⟨m', stored', inlined, outs⟩ := first.nodes id m stored
  obtain ⟨m'', stored'', inlined', outs'⟩ := second.nodes id m' stored'
  exact ⟨m'', stored'', inlined'.trans inlined, outs'.trans outs⟩

theorem inlinedIds (keeps : KeepsGroups before after) : after.draft.inlinedIds = before.draft.inlinedIds := by
  refine inlinedIds_congr keeps.keys (fun id m stored => ?_)
  obtain ⟨m', stored', same, _⟩ := keeps.nodes id m stored
  exact ⟨m', stored', same⟩

theorem consistent (keeps : KeepsGroups before after) (consistent : Consistent before.draft before.symbols) :
    Consistent after.draft after.symbols := by
  refine ⟨keeps.partition ▸ consistent.nodup, ?_, fun c member => ?_, fun id m stored inlined => ?_⟩
  · rw [keeps.partition, keeps.keys]
    exact consistent.within
  · exact keeps.grows.kept (consistent.named c (keeps.partition ▸ member))
  · obtain ⟨m₀, stored₀⟩ := Table.mem_keys_iff.mp (keeps.keys ▸ Table.mem_keys_of_get? stored)
    obtain ⟨m', stored', sameInlined, sameOuts⟩ := keeps.nodes id m₀ stored₀
    cases stored.symm.trans stored'
    rw [keeps.partition, sameOuts]
    exact consistent.elided id m₀ stored₀ (sameInlined ▸ inlined)

end KeepsGroups

/-- Finishing a consistent draft makes a certificate that holds. -/
theorem finish_ends (staged : ∀ m ∈ w.draft.nodes.values, m.stage = .messagesSynthesized)
    (present : ∀ id ∈ w.draft.nodes.keys, ∃ n, input.graph.get? id = some n) :
    Ends (finish input) w
      (fun c after => Finished w after ∧ c = after.draft.certificate after.symbols ∧ c.holds = true)
      (fun e => Finishable input [] w → Consistent w.draft w.symbols → FinishFault input e) := by
  refine Ends.bind ((finalizeNodeCode_ends staged present).mono (fun _ _ post => post)
    (fun _ bad finishable _ => bad finishable)) ?_
  intro _ after finished
  refine Ends.draft_bind (Ends.symbols_bind ?_)
  show Ends (if _ then _ else _) after _ _
  split
  next holds => exact Ends.pure ⟨finished, rfl, holds⟩
  next refused =>
    intro _ consistent
    exact absurd ((finished.keepsGroups.consistent consistent).holds finished.staged) refused

end DspPatch.Draft
