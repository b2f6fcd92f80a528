import DspPatch.Proofs.Compile

/-!
When cold groups run again. A message to a member of a cold group, and a call of one of its inlets by the host, runs the
group afterwards exactly if the member is left in the group. A member that was inlined is left in no group: its message
changes its state, but the value that the group made of the old state stays until something else runs the group.
-/
namespace DspPatch.Draft

/-- How a member `v` of a cold group is served. The groups were `p` before inlined nodes were taken out. -/
structure MemberServed (input : BuildInput) (full : List String) (s : Symbols) (d : Draft) (p : Partition)
    (group : ColdGroup) (v : String) : Prop where
  /-- Whoever sends a message to `v` calls its receiver, and then the group if one of the sinks is left in it. -/
  sent : ∀ u ∈ full, ∀ n, input.graph.get? u = some n → ∀ o ∈ n.outletsOf .message, ∀ inlet,
    ⟨v, inlet⟩ ∈ n.sinksOf o.id → ∃ m sender receiver, d.nodes.get? u = some m ∧ m.senders.get? o.id = some sender ∧
      s.portlet .rcvs v inlet = .ok receiver ∧ receiver ∈ sender.callees ∧
      ([receiver, group.function].Sublist sender.callees ↔
        ∃ sink ∈ n.sinksOf o.id, Triggers p d.inlinedIds group sink.node)
  /-- Every inlet of `v` that the host may call has a caller. -/
  called : ∀ inlets, input.settings.inletCallers.get? v = some inlets → ∀ inlet ∈ inlets,
    ∃ caller ∈ d.inletCallers, caller.node = v ∧ caller.inlet = inlet
  /-- The callers of `v` run the group if `v` is left in it. -/
  triggered : ∀ caller ∈ d.inletCallers, caller.node = v →
    (caller.coldTrigger = some group.function ↔ Triggers p d.inlinedIds group v)

theorem Completed.memberServed {input : BuildInput} {full : List String} {p : Partition} {s : Symbols} {d : Draft}
    (completed : Completed input full p s d) {group : ColdGroup} (listed : group ∈ p.cold) {v : String}
    (traversed : v ∈ full) : MemberServed input full s d p group v := by
  refine ⟨fun u member n found o outlet inlet sink => ?_, fun inlets settings inlet called => ?_,
    fun caller member own => ?_⟩
  · obtain ⟨m, stored⟩ := Table.mem_keys_iff.mp ((completed.keys u).mpr member)
    obtain ⟨n', found', sent⟩ := completed.senders u m stored
    cases found.symm.trans found'
    obtain ⟨plan, sender, planned, senderStored, callees⟩ := sent o outlet
    obtain ⟨receiver, inPlan, received⟩ := planned.receiver sink
    refine ⟨m, sender, receiver, stored, senderStored, Symbols.portlet_eq_ok_iff.mpr received, ?_, ?_⟩
    · rw [callees]
      exact mem_callees_iff.mpr (.inl inPlan)
    · rw [callees, completed.partition]
      exact pair_sublist_callees_iff completed.numbered completed.shaped planned listed inPlan
  · have place : (v, inlet) ∈ Draft.called input d :=
      mem_called_iff.mpr ⟨(completed.keys v).mpr traversed, inlets, settings, called⟩
    obtain ⟨caller, member, node, own, _⟩ := exists_right_of_forall₂ completed.callers place
    exact ⟨caller, member, node, own⟩
  · obtain ⟨place, _, node, _, _, trigger, _⟩ := exists_left_of_forall₂ completed.callers member
    rw [trigger, ← node, own, completed.partition]
    exact trigger?_without_iff completed.numbered completed.shaped listed v

/-- A member of a cold group makes the group run again exactly if it is left in the group. In a well-formed graph, where
    groups are disjoint, these are the members that are not inlined. -/
theorem recomputation_iff_left {g : Graph} {r : Registry} {request : SettingsRequest} {program : CompiledProgram}
    (compiled : compile g r request = .ok program) :
    ∃ d before, (Compilation.run { graph := g, registry := r, request } .assemble).2.draft = some d ∧
      (∃ signal, (g.trim program.traversal).signalTraversal (fun _ => true)
          (pulling (g.trim program.traversal) program.traversal) = .ok signal ∧
        FormedFrom (g.trim program.traversal) r program.traversal signal before.cold) ∧
      d.partition = before.without d.inlinedIds ∧
      (g.checkIntegrity = .ok () → g.PortletsKeyed → g.KindsAgree →
        before.cold.Pairwise (fun a b => ∀ v, v ∈ a.group.traversal → v ∉ b.group.traversal)) ∧
      ∀ group ∈ before.cold, ∀ v ∈ group.group.traversal,
        MemberServed ⟨g.trim program.traversal, r, program.settings⟩ program.traversal program.symbols d before group v := by
  obtain ⟨d, before, draft, _, _, runnable, completed⟩ := (compile_outcome g r request).of_eq_ok compiled
  obtain ⟨signal, walk, formed⟩ := completed.formed
  refine ⟨d, before, draft, completed.formed, completed.partition, fun accepted keyed kinds => ?_, fun group listed v member => ?_⟩
  · exact completed.apart (runnable (Graph.wellFormed_of_checks accepted keyed kinds))
  · exact completed.memberServed listed (formed.subset listed member)

/-- A slider that sets a gain; the gain is shaped and then played. -/
def gainPatch : Graph := [
  { Node.bare "slider" "slider" with
    outlets := .ofList [("0", ⟨"0", .message⟩)], sinks := .ofList [("0", [⟨"gain", "0"⟩])], isPushingMessages := true },
  { Node.bare "gain" "gain" with
    inlets := .ofList [("0", ⟨"0", .message⟩)], outlets := .ofList [("0", ⟨"0", .signal⟩)]
    sources := .ofList [("0", [⟨"slider", "0"⟩])], sinks := .ofList [("0", [⟨"shape", "0"⟩])] },
  { Node.bare "shape" "shape" with
    inlets := .ofList [("0", ⟨"0", .signal⟩)], outlets := .ofList [("0", ⟨"0", .signal⟩)]
    sources := .ofList [("0", [⟨"gain", "0"⟩])], sinks := .ofList [("0", [⟨"out", "0"⟩])] },
  { Node.bare "out" "out" with
    inlets := .ofList [("0", ⟨"0", .signal⟩)], sources := .ofList [("0", [⟨"shape", "0"⟩])]
    isPullingSignal := true }].foldl Graph.insert .empty

/-- The gain is an inline node with a state, which its receiver sets. -/
def gainRegistry : Registry :=
  Registry.empty |>.register "slider" {} |>.register "shape" { flags := ⟨true, false⟩ } |>.register "out" {}
    |>.register "gain" {
      flags := ⟨true, true⟩
      state := fun _ => .ok [⟨"value", "Float", "0"⟩]
      loop := fun c => do return some (.ofCode ((← c.state) ++ ".value"))
      receivers := fun c => do
        return .ofList [("0", ⟨.ofCode ((← c.state) ++ ".value = " ++ (← c.symbols.global "msg" "readFloatToken") ++
          "(m, 0)\nreturn"), true⟩)] }

/-- The host may call the gain too. -/
def gainRequest : SettingsRequest := { inletCallers := some (.ofList [("gain", ["0"])]) }

def gainTraversal : List String := ["gain", "shape", "out", "slider"]

/-- The gain belongs to the cold group of its shape but is inlined there, so that nobody who sets it runs the group. -/
theorem recomputation_iff_left_gain :
    ∃ program d before group, compile gainPatch gainRegistry gainRequest = .ok program ∧
      (Compilation.run { graph := gainPatch, registry := gainRegistry, request := gainRequest } .assemble).2.draft =
        some d ∧
      group ∈ before.cold ∧ "gain" ∈ group.group.traversal ∧ "gain" ∈ d.inlinedIds ∧
      MemberServed ⟨gainPatch.trim gainTraversal, gainRegistry, program.settings⟩ gainTraversal program.symbols d before
        group "gain" ∧
      (d.nodes.get? "slider").bind (fun m => (m.senders.get? "0").map Sender.callees) = some ["gain_RCVS_0"] ∧
      d.inletCallers.map (fun c => (c.node, c.receiver, c.coldTrigger)) = [("gain", "gain_RCVS_0", none)] := by
  have traversal : (compile gainPatch gainRegistry gainRequest).map CompiledProgram.traversal = .ok gainTraversal := by
    decide +kernel
  have inlined : ∀ d ∈ (Compilation.run { graph := gainPatch, registry := gainRegistry, request := gainRequest }
      .assemble).2.draft, d.inlinedIds = ["gain"] := by
    decide +kernel
  have senders : ∀ d ∈ (Compilation.run { graph := gainPatch, registry := gainRegistry, request := gainRequest }
      .assemble).2.draft, (d.nodes.get? "slider").bind (fun m => (m.senders.get? "0").map Sender.callees) =
        some ["gain_RCVS_0"] := by
    decide +kernel
  have callers : ∀ d ∈ (Compilation.run { graph := gainPatch, registry := gainRegistry, request := gainRequest }
      .assemble).2.draft, d.inletCallers.map (fun c => (c.node, c.receiver, c.coldTrigger)) =
        [("gain", "gain_RCVS_0", none)] := by
    decide +kernel
  cases compiled : compile gainPatch gainRegistry gainRequest with
  | error e =>
    rw [compiled] at traversal
    cases traversal
  | ok program =>
    rw [compiled] at traversal
    have order : program.traversal = gainTraversal := Except.ok.inj traversal
    obtain ⟨d, before, draft, ⟨signal, walk, eligible, found, groups⟩, _, _, served⟩ := recomputation_iff_left compiled
    rw [order] at walk found groups served
    have reached : signal = ["gain", "shape", "out"] := by
      refine Except.ok.inj (walk.symm.trans ?_)
      decide +kernel
    subst reached
    have cold : eligible = ["gain", "shape"] := by
      refine Except.ok.inj (found.symm.trans ?_)
      decide +kernel
    subst cold
    have formed : before.cold.map ColdGroup.group = [⟨["gain", "shape"], ["shape"]⟩] := by
      refine groups.trans ?_
      decide +kernel
    obtain ⟨group, single, members⟩ := List.map_eq_singleton_iff.mp formed
    have listed : group ∈ before.cold := by rw [single]; exact List.mem_cons_self
    have member : "gain" ∈ group.group.traversal := by rw [members]; exact List.mem_cons_self
    have isInlined : "gain" ∈ d.inlinedIds := by rw [inlined d draft]; exact List.mem_cons_self
    exact ⟨program, d, before, group, rfl, draft, listed, member, isInlined, served group listed "gain" member,
      senders d draft, callers d draft⟩

end DspPatch.Draft
