import DspPatch.Proofs.Draft.Certificate

/-!
Where inlet code comes from. Every node that is not inlined gets the inlet code that its generator makes when the node is
finished (`finish_inletCode`). The generator knows the inlet expressions that the finished draft has, and those symbols
that were given by then.
-/
namespace DspPatch.Draft
open Build
variable {input : BuildInput} {w : Workspace}

/-- The inlet code of a node is what its generator makes with the symbols that were known then. -/
def InletCodeMade (input : BuildInput) (s : Symbols) (id : String) (m : NodeDraft) : Prop :=
  ∃ n i known, input.graph.get? id = some n ∧ input.registry.types.get? n.type = some i ∧ Symbols.Grows known s ∧
    i.inletDsp ⟨n, known, input.settings, m.signalIns⟩ = .ok m.inletDsp

/-- A node that is finished stays inlined or not, and has its inlet code if it is not. -/
def InletCodeAdded (input : BuildInput) (s : Symbols) (id : String) (before after : NodeDraft) : Prop :=
  after.inlined = before.inlined ∧ (before.inlined = false → InletCodeMade input s id after)

theorem InletCodeAdded.mono {s t : Symbols} {id : String} {before after : NodeDraft} (grows : s.Grows t)
    (added : InletCodeAdded input s id before after) : InletCodeAdded input t id before after := by
  refine ⟨added.1, fun plain => ?_⟩
  obtain ⟨n, i, known, found, type, earlier, made⟩ := added.2 plain
  exact ⟨n, i, known, found, type, earlier.trans grows, made⟩

theorem inletDsp_of_generate {i : Implementation} {context : NodeContext} {m : NodeDraft} {code : GeneratedCode}
    (generated : generate i context m = .ok code) (plain : m.inlined = false) :
    i.inletDsp context = .ok code.inletDsp := by
  obtain ⟨members, _, generated⟩ := bind_eq_ok_iff.mp generated
  obtain ⟨initialization, _, generated⟩ := bind_eq_ok_iff.mp generated
  rw [plain, if_neg Bool.false_ne_true] at generated
  have last : ∀ loop, (do return (⟨members, initialization, loop, ← i.inletDsp context⟩ : GeneratedCode)) = .ok code →
      i.inletDsp context = .ok code.inletDsp := by
    intro loop ends
    obtain ⟨inlets, made, same⟩ := bind_eq_ok_iff.mp ends
    cases same
    exact made
  dsimp only at generated
  split at generated
  · exact last none generated
  · obtain ⟨loop, _, generated⟩ := bind_eq_ok_iff.mp generated
    exact last loop generated

theorem finalizeNode_inletCode {id : String} {n : Node} {m : NodeDraft} (found : input.graph.get? id = some n)
    (stored : w.draft.nodes.get? id = some m) :
    Ends (finalizeNode input id) w
      (fun _ after => w.symbols.Grows after.symbols ∧
        NodesChanged [id] (InletCodeAdded input after.symbols) w.draft after.draft) (fun _ => True) := by
  refine (finalizeNode_parts found stored).mono ?_ (fun _ bad => bad)
  rintro _ _ ⟨i, code, state, between, type, generated, made, rfl⟩
  obtain ⟨grows, ⟨types, same⟩, _⟩ := (makeState_ends input (List.not_mem_nil (a := id))).of_run made
  have nodes : between.draft.nodes = w.draft.nodes := by rw [same]
  have changed := NodesChanged.modifyNode between.draft id (code.addTo state)
  refine ⟨grows, changed.keys.trans (by rw [nodes]), fun other outside => ?_, fun other member before stored' => ?_⟩
  · exact (changed.same other outside).trans (by rw [nodes])
  · obtain ⟨after, stored'', rfl⟩ := changed.changed other member before (by rw [nodes, stored'])
    refine ⟨_, stored'', rfl, fun plain => ⟨n, i, w.symbols, ?_, type, grows, ?_⟩⟩
    · rwa [List.mem_singleton.mp member]
    · rw [List.mem_singleton.mp member, stored] at stored'
      cases stored'
      rw [GeneratedCode.addTo, inletDsp_of_generate generated plain, plain]
      rfl

/-- After a draft is finished, the nodes that are not inlined have the inlet code that their generators make. -/
theorem finish_inletCode (staged : ∀ m ∈ w.draft.nodes.values, m.stage = .messagesSynthesized)
    (present : ∀ id ∈ w.draft.nodes.keys, ∃ n, input.graph.get? id = some n) :
    Ends (finish input) w
      (fun _ after => ∀ id m, after.draft.nodes.get? id = some m → m.inlined = false →
        InletCodeMade input after.symbols id m) (fun _ => True) := by
  have finalized : Ends (finalizeNodeCode input) w
      (fun _ after => ∀ id m, after.draft.nodes.get? id = some m → m.inlined = false →
        InletCodeMade input after.symbols id m) (fun _ => True) := by
    refine Ends.pass staged (Ends.nodeIds_bind ?_)
    refine (Ends.eachNode w.draft.nodes.nodup_keys (InletCodeAdded input) InletCodeAdded.mono (fun _ _ => True) trivial
      ?_).mono ?_ (fun _ bad => bad)
    · intro done id rest now split _ _ same _
      have member : id ∈ w.draft.nodes.keys := by simp [split]
      obtain ⟨n, found⟩ := present id member
      obtain ⟨m, stored⟩ := Table.mem_keys_iff.mp member
      refine (finalizeNode_inletCode found (same.trans stored)).mono ?_ (fun _ bad => bad)
      exact fun _ after post => ⟨post.1, trivial, post.2⟩
    · rintro _ after ⟨_, _, changed⟩ id m stored plain
      rw [get?_atStage] at stored
      obtain ⟨m₁, stored₁, rfl⟩ := Option.map_eq_some_iff.mp stored
      obtain ⟨m₀, stored₀⟩ := Table.mem_keys_iff.mp (changed.keys ▸ Table.mem_keys_of_get? stored₁)
      obtain ⟨m', stored', inlined, made⟩ := changed.changed id (Table.mem_keys_of_get? stored₀) m₀ stored₀
      cases stored₁.symm.trans stored'
      exact made (inlined.symm.trans plain)
  refine Ends.bind finalized (fun _ after made => Ends.draft_bind (Ends.symbols_bind ?_))
  show Ends (if _ then _ else _) after _ _
  split
  · exact Ends.pure made
  · exact trivial

end DspPatch.Draft
