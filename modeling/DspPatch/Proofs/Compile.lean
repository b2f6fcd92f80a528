import DspPatch.Proofs.Draft.Certificate
import DspPatch.Proofs.Draft.Triggers
import DspPatch.Proofs.Pipeline
import DspPatch.Proofs.Program

/-!
Whole compilations. Every pass finds what the passes before it have left: names for all portlets, registered types with
tags, groups within the draft. So a compilation of a well-formed graph can only fail at settings, names, implementations
or state layouts, and a compilation that succeeds, of whatever graph, has passed its messages on as the groups ask for.
-/
namespace DspPatch
open Build

/-- The errors that a compilation of a well-formed graph may end with. -/
inductive Expected (g : Graph) (r : Registry) (request : SettingsRequest) : Pass → CompileError → Prop where
  | settings (fault : SettingsFault) : Expected g r request .validateSettings (.settings fault)
  | name (part : String) {pass : Pass}
      (names : pass ∈ [.allocateNames, .resolvePortlets, .collectDependencies, .synthesizeMessages, .generateNodeCode]) :
      Expected g r request pass (.name part)
  | implementation (type : String) (place : Place) (fault : ImplementationFault) {pass : Pass}
      (codes : pass ∈ [.collectDependencies, .synthesizeMessages, .generateNodeCode]) :
      Expected g r request pass (.implementation type place fault)
  | layout {id type : String} {full : List String} {s : Settings} (valid : checkedSettings g request = .ok s)
      (traversal : g.fullTraversal s.inletCallers.keys = .ok full)
      (differ : Draft.LayoutsDiffer ⟨g.trim full, r, s⟩ id type) :
      Expected g r request .generateNodeCode (.verification (.stateLayout id type))

namespace Expected
variable {g : Graph} {r : Registry} {request : SettingsRequest} {pass : Pass} {e : CompileError}

theorem of_isName (isName : e.IsName)
    (names : pass ∈ [.allocateNames, .resolvePortlets, .collectDependencies, .synthesizeMessages, .generateNodeCode]) :
    Expected g r request pass e := by
  obtain ⟨part, rfl⟩ := isName
  exact .name part names

theorem of_codeFault {full : List String} (total : r.Total g) (fault : CodeFault (g.trim full) r e)
    (codes : pass ∈ [.collectDependencies, .synthesizeMessages, .generateNodeCode]) : Expected g r request pass e := by
  rcases fault with isName | ⟨type, place, fault, rfl⟩ | raised
  · exact .of_isName isName (List.mem_cons_of_mem _ (List.mem_cons_of_mem _ codes))
  · exact .implementation type place fault codes
  · exact absurd raised (total.not_raises full e)

end Expected

/-- Portlets that are named for a kept node are portlets of the trimmed graph. -/
theorem PortletSpec.Fits.trim {spec : PortletSpec} {g : Graph} {keep : List String} {entry : String × List String}
    (fits : spec.Fits g entry) (keyed : ∀ {key n}, g.get? key = some n → n.id = key) (member : entry.1 ∈ keep) :
    spec.Fits (g.trim keep) entry := by
  obtain ⟨n, found, declared⟩ := fits
  refine ⟨Graph.trimNode keep n, (Graph.get?_trim keyed).mpr ⟨n, found, member, rfl⟩, ?_⟩
  cases spec <;> exact declared

/-- Callers that fit a graph are nodes of it, so that the traversal finds them. -/
theorem fullTraversal_ne_error {g : Graph} (wf : g.WellFormed) {callers : PortletSpecs}
    (fits : ∀ entry ∈ callers.entries, PortletSpec.inletCallers.Fits g entry) (e : CompileError) :
    g.fullTraversal callers.keys ≠ .error e := by
  intro failed
  obtain ⟨id, called, missing⟩ := (Graph.fullTraversal_yields wf _).of_eq_error failed
  obtain ⟨inlets, listed⟩ := Table.mem_keys_iff.mp called
  obtain ⟨n, found, _⟩ := fits (id, inlets) (Table.get?_eq_some_iff.mp listed)
  cases missing.symm.trans found

namespace Draft
variable {input : BuildInput} {w : Workspace} {full : List String}

/-- After the dependencies are collected, all that messages are made from is there. -/
theorem Collected.speaking {stage : Stage} (collected : Collected input full w) (prepared : Prepared input full stage w)
    (wf : input.graph.WellFormed) (covers : Covers w.symbols input.graph) (served : Served input w)
    (called : ∀ entry ∈ input.settings.inletCallers.entries, entry.1 ∈ full →
      PortletSpec.inletCallers.Fits input.graph entry) : Speaking input w := by
  refine ⟨covers, served, ?_, ?_⟩
  · exact collected.msg (by decide)
  · intro id inlets settings member inlet listed
    obtain ⟨n, found, declared⟩ := called (id, inlets) (Table.get?_eq_some_iff.mp settings) ((prepared.keys id).mp member)
    obtain ⟨p, isInlet, kind⟩ := declared inlet listed
    obtain ⟨d, stored⟩ := Table.mem_keys_iff.mp member
    obtain ⟨m, mFound, named, _⟩ := prepared.nodes id d stored
    cases found.symm.trans mFound
    obtain rfl : p.id = inlet := wf.inletId found isInlet
    have isCalled : p.id ∈ (input.settings.inletCallers.get? id).getD [] := by
      rw [settings]
      exact listed
    refine ⟨named.callers p.id isCalled, named.rcvs p ((Graph.mem_inletsOf_iff wf found).mpr ⟨isInlet, kind⟩) ?_⟩
    rw [receives, List.contains_iff_mem.mpr isCalled, Bool.true_or]

/-- After the messages are made, the rest of the code can be made. -/
theorem Collected.finishable {divided spoken : Workspace} {p : Partition} (collected : Collected input full w)
    (covers : Covers w.symbols input.graph) (served : Served input w) (division : Divided input.graph p w divided)
    (synthesis : Synthesized input divided spoken) : Finishable input [] spoken := by
  have grows := division.grows.trans synthesis.grows
  have types : spoken.draft.types = w.draft.types := by
    obtain ⟨_, _, same⟩ := synthesis.rest
    rw [same]
    exact division.types
  refine ⟨covers.mono grows, served.mono grows (division.keepsInlets.trans synthesis.keepsInlets), synthesis.voiced,
    fun type t known found isClass => ?_⟩
  rw [types] at found
  cases (collected.classless type t found).symm.trans isClass

/-- After the rest of the code is made, the program can be assembled. -/
theorem Collected.assemblable {divided finished : Workspace} {p : Partition} {order firsts : List String}
    (collected : Collected input full w) (runnable : input.graph.Runnable full)
    (partitioned : Partitioned input full order firsts p divided) (consistent : Consistent finished.draft finished.symbols)
    (keeps : KeepsGroups divided finished) (grows : w.symbols.Grows finished.symbols)
    (finalized : ∀ m ∈ finished.draft.nodes.values, m.stage = .finalized) :
    Assemblable finished.draft finished.symbols := by
  refine ⟨finalized, grows.present ?_, grows.present ?_, consistent.within, fun c member k leaving => ?_⟩
  · exact collected.msg (by decide)
  · exact collected.commons (by decide)
  · rw [keeps.partition, partitioned.partition] at member
    obtain ⟨whole, listed, rfl⟩ := List.mem_map.mp member
    obtain ⟨_, _, group⟩ := partitioned.split.coldGroup listed
    obtain ⟨connects, _, _⟩ := (group.connections k).mp leaving
    obtain ⟨target, _, found, _⟩ := (Graph.connects_iff_source runnable.wf).mp connects
    rw [keeps.keys]
    exact (partitioned.keys _).mpr ((runnable.complete _).mpr ⟨target, found⟩)

/-- The draft that a compilation ends with. Its groups were `p` before inlined nodes were taken out, its senders know the
    receivers and the groups of their sinks, and its callers know the groups of their nodes. -/
structure Completed (input : BuildInput) (full : List String) (p : Partition) (s : Symbols) (d : Draft) : Prop where
  formed : ∃ signal, input.graph.signalTraversal (fun _ => true) (pulling input.graph full) = .ok signal ∧
    FormedFrom input.graph input.registry full signal p.cold
  apart : input.graph.Runnable full → p.cold.Pairwise (fun c d => ∀ v, v ∈ c.group.traversal → v ∉ d.group.traversal)
  shaped : s.Shaped
  numbered : Numbered s p.cold
  partition : d.partition = p.without d.inlinedIds
  keys : ∀ id, id ∈ d.nodes.keys ↔ id ∈ full
  senders : ∀ id m, d.nodes.get? id = some m → ∃ n, input.graph.get? id = some n ∧ ∀ o ∈ n.outletsOf .message,
    ∃ plan sender, PlanOf s ((input.settings.outletListeners.get? id).getD []) id n o.id plan ∧
      m.senders.get? o.id = some sender ∧
      sender.callees = callees d.partition plan (n.sinksOf o.id)
  callers : List.Forall₂ (CallerOf s d.partition) (called input d) d.inletCallers

/-- The messages of a node of the draft that a compilation ends with. -/
theorem messages_of_passes {stage : Stage} {divided spoken finished : Workspace} {p : Partition}
    (prepared : Prepared input full stage w) (division : Divided input.graph p w divided)
    (synthesis : Synthesized input divided spoken) (finishing : Finished spoken finished) {id : String} {m : NodeDraft}
    (stored : finished.draft.nodes.get? id = some m) :
    ∃ n, input.graph.get? id = some n ∧ ReceiversOf spoken.symbols id m.receivers ∧ ∀ o ∈ n.outletsOf .message,
      ∃ plan sender, PlanOf finished.symbols ((input.settings.outletListeners.get? id).getD []) id n o.id plan ∧
        m.senders.get? o.id = some sender ∧ SenderOf divided.symbols finished.symbols id o.id
          (callees finished.draft.partition plan (n.sinksOf o.id)) sender := by
  have keeps := synthesis.keepsGroups.trans finishing.keepsGroups
  have member : id ∈ w.draft.nodes.keys := by
    rw [← division.keys, ← keeps.keys]
    exact Table.mem_keys_of_get? stored
  obtain ⟨m₀, stored₀⟩ := Table.mem_keys_iff.mp member
  obtain ⟨n, found, _, ready⟩ := prepared.nodes id m₀ stored₀
  obtain ⟨m₁, stored₁, plans, silent, _, _⟩ := division.nodes id m₀ stored₀
  obtain ⟨n', m₂, found', stored₂, senders, receivers, stage₂, rfl, sent, received⟩ := synthesis.nodes id m₁ stored₁
  obtain ⟨m₃, stored₃, _, _, _, _, _, _, rfl⟩ := finishing.nodes id _ stored₂
  cases found.symm.trans found'
  cases stored.symm.trans stored₃
  refine ⟨n, found, received (silent.trans ready.receivers), fun o outlet => ?_⟩
  obtain ⟨plan, planStored, planned⟩ := ready.plans o outlet
  obtain ⟨sender, senderStored, isSender⟩ := sent o outlet
  refine ⟨plan, sender, planned.mono (division.grows.trans keeps.grows), senderStored, ?_⟩
  rw [plans, planStored, Option.getD_some, ← keeps.partition] at isSender
  exact isSender.mono finishing.keeps.grows

theorem completed_of_passes {stage : Stage} {divided spoken finished : Workspace} {signal : List String} {p : Partition}
    (walk : input.graph.signalTraversal (fun _ => true) (pulling input.graph full) = .ok signal)
    (formed : FormedFrom input.graph input.registry full signal p.cold) (prepared : Prepared input full stage w)
    (shaped : w.symbols.Shaped) (division : Divided input.graph p w divided)
    (split : Walked input.graph full signal → ∃ firsts,
      SplitOf input.graph input.registry full (full.filter (fun id => signal.contains id)) firsts p)
    (synthesis : Synthesized input divided spoken) (finishing : Finished spoken finished) :
    Completed input full p finished.symbols finished.draft := by
  have keeps := synthesis.keepsGroups.trans finishing.keepsGroups
  have grows := division.grows.trans keeps.grows
  refine ⟨⟨signal, walk, formed⟩, fun runnable => ?_, shaped.mono grows, division.numbered.mono keeps.grows, ?_,
    fun id => ?_, fun id m stored => ?_, ?_⟩
  · obtain ⟨firsts, split⟩ := split (walked_of_runnable runnable walk)
    exact split.apart
  · rw [keeps.partition, keeps.inlinedIds]
    exact division.partition
  · rw [keeps.keys, division.keys]
    exact prepared.keys id
  · obtain ⟨n, found, _, sent⟩ := messages_of_passes prepared division synthesis finishing stored
    refine ⟨n, found, fun o outlet => ?_⟩
    obtain ⟨plan, sender, planned, senderStored, isSender⟩ := sent o outlet
    exact ⟨plan, sender, planned, senderStored, isSender.callees⟩
  · obtain ⟨_, callers, same⟩ := synthesis.rest
    obtain ⟨_, _, same'⟩ := finishing.keeps.rest
    have unchanged : finished.draft.inletCallers = spoken.draft.inletCallers := by rw [same']
    rw [called_congr keeps.keys, unchanged, keeps.partition]
    refine synthesis.callers.imp ?_
    rintro place caller ⟨node, inlet, receiver, trigger, symbol⟩
    exact ⟨node, inlet, finishing.keeps.grows.kept receiver, trigger, finishing.keeps.grows.kept symbol⟩

end Draft

/-- What a compilation comes to: a completed draft whose certificate holds, or an expected error. -/
theorem compile_outcome (g : Graph) (r : Registry) (request : SettingsRequest) :
    Yields (compile g r request)
      (fun result => ∃ d p, (Compilation.run { graph := g, registry := r, request } .assemble).2.draft = some d ∧
        (Compilation.run { graph := g, registry := r, request } .assemble).2.certificate =
          some (d.certificate result.symbols) ∧ (d.certificate result.symbols).holds = true ∧
        (g.WellFormed → (g.trim result.traversal).Runnable result.traversal) ∧
        Draft.Completed ⟨g.trim result.traversal, r, result.settings⟩ result.traversal p result.symbols d)
      (fun failure => g.WellFormed → r.Total g → Expected g r request failure.1 failure.2) := by
  refine Compilation.compile_yields (fun pass e => g.WellFormed → r.Total g → Expected g r request pass e)
    (Compilation.runs_all ?_)
  have checked := checkedSettings_yields g request
  refine (Yields.self _).mono (fun s valid => ?_) (fun e failed _ _ => ?_)
  swap
  · obtain ⟨fault, rfl⟩ := checked.of_eq_error failed
    exact .settings fault
  have fits := checked.of_eq_ok valid
  refine (Yields.self _).mono (fun full traversal => ?_) (fun e failed wf _ => ?_)
  swap
  · exact absurd failed (fullTraversal_ne_error wf fits e)
  have runnable : g.WellFormed → (g.trim full).Runnable full := fun wf => Graph.runnable_of_fullTraversal wf traversal
  refine (Symbols.ofGraph_yields _ _).mono ?_ (fun e bad _ _ => .of_isName bad (by decide))
  intro symbols initial
  have covers : Draft.Covers symbols (g.trim full) :=
    fun id n found => initial.covers id n found (Graph.keyed_trim g full found)
  refine (Draft.start_yields _ _).mono (fun draft started => ?_) ?_
  swap
  · rintro e ⟨id, member, missing⟩ wf _
    obtain ⟨n, found⟩ := ((runnable wf).complete id).mp member
    cases missing.symm.trans found
  refine (Draft.resolvePortlets_ends (Graph.keyed_trim g full) started).mono ?_ (fun e bad wf _ => ?_)
  swap
  · exact .of_isName (bad (runnable wf).wf (fun id n found => ((runnable wf).complete id).mpr ⟨n, found⟩) covers) (by decide)
  rintro _ resolved ⟨resolvedPrepared, resolvedGrows, fresh⟩
  refine (Draft.collectDependencies_ends resolvedPrepared fresh).mono ?_
    (fun e bad _ total => .of_codeFault total bad (by decide))
  rintro _ collected ⟨prepared, collectedGrows, collection⟩
  have grows := resolvedGrows.trans collectedGrows
  have served := collection.nodes prepared (Graph.keyed_trim g full) (covers.mono grows)
  refine (Draft.partitionDsp_ends prepared).mono ?_ (fun e bad wf total => ?_)
  swap
  · rcases bad (runnable wf) served with ⟨id, n, found, unknown⟩ | raised
    · obtain ⟨i, known⟩ := collection.served id (((runnable wf).complete id).mpr ⟨n, found⟩) n found
      cases unknown.symm.trans known.registered
    · exact absurd raised (total.not_raises full e)
  rintro _ divided ⟨signal, p, _, walk, _, division, _, cut, split⟩
  have present : ∀ id ∈ divided.draft.nodes.keys, ∃ n, (g.trim full).get? id = some n := by
    intro id member
    exact prepared.present id ((prepared.keys id).mp (division.keys ▸ member))
  have groups : g.WellFormed → ∃ order firsts, (g.trim full).RunOrder order ∧
      Draft.Partitioned ⟨g.trim full, r, s⟩ full order firsts p divided := by
    intro wf
    have walked := Draft.walked_of_runnable (runnable wf) walk
    obtain ⟨firsts, split⟩ := split walked
    exact ⟨_, firsts, walked.run, division.partitioned walked.wf prepared split⟩
  refine (Draft.synthesizeMessages_ends division.staged present).mono ?_ (fun e bad wf total => ?_)
  swap
  · have speaking := collection.speaking prepared (runnable wf).wf (covers.mono grows) served (fun entry listed member =>
      (fits entry listed).trim wf.keyed member)
    exact .of_codeFault total (bad (speaking.mono division.grows division.keepsInlets)) (by decide)
  intro _ spoken synthesis
  refine (Draft.finish_ends synthesis.staged (synthesis.keys.symm ▸ present)).mono ?_ (fun e bad wf total => ?_)
  swap
  · obtain ⟨order, firsts, run, partitioned⟩ := groups wf
    have consistent := synthesis.keepsGroups.consistent (partitioned.consistent (runnable wf) run)
    rcases bad (collection.finishable (covers.mono grows) served division synthesis) consistent with
      fault | ⟨id, type, rfl, differ⟩
    · exact .of_codeFault total fault (by decide)
    · exact .layout valid traversal differ
  rintro certificate finished ⟨finishing, rfl, holds⟩
  refine (Yields.self _).mono (fun program made run => ?_) (fun e failed wf total => ?_)
  swap
  · obtain ⟨order, firsts, run, partitioned⟩ := groups wf
    have consistent := partitioned.consistent (runnable wf) run
    have keeps := synthesis.keepsGroups.trans finishing.keepsGroups
    have assemblable := collection.assemblable (runnable wf) partitioned (keeps.consistent consistent) keeps
      (division.grows.trans keeps.grows) finishing.staged
    obtain ⟨program, made⟩ := Draft.exists_program assemblable
    cases failed.symm.trans made
  refine ⟨_, rfl, finished.draft, p, by rw [run]; rfl, by rw [run]; rfl, holds, runnable, ?_⟩
  exact Draft.completed_of_passes walk cut.formed prepared (initial.shaped.mono grows) division split synthesis finishing

end DspPatch
