import DspPatch.Proofs.GivenSymbols
import DspPatch.Proofs.Recomputation
import DspPatch.Proofs.StableSymbols

/-!
Where messages go. The sender of an outlet calls the host if it listens, then the receivers of the sinks, then the
functions of their cold groups. Whoever is called is there: receivers and cold groups have functions in the program, and
the host's functions are imported. Conversely each receiver has a caller, since it was made for an inlet that something
feeds or that the host calls.
-/
namespace DspPatch
open Build

/-- The program has a function for messages under the name. -/
def CompiledProgram.Defines (result : CompiledProgram) (name : String) : Prop :=
  ∃ body, .function (Draft.messageFunction name body) ∈ result.program.content

/-- The host has to provide a function for messages under the name. -/
def CompiledProgram.Imports (result : CompiledProgram) (name : String) : Prop :=
  Draft.messageFunction name .empty ∈ result.imports

/-- How messages leave an outlet of the node `n`, which stands under `u`. -/
structure OutletServed (result : CompiledProgram) (d : Draft) (u : String) (n : Node) (outlet : String) (sender : Sender) :
    Prop where
  /-- The host, the receivers of the sinks that are left, and the functions of their cold groups. -/
  callees : ∃ receivers,
    List.Forall₂ (fun sink receiver => result.symbols.portlet .rcvs sink.node sink.portlet = .ok receiver)
      ((n.sinksOf outlet).filter (fun sink => sink.node ∈ result.traversal)) receivers ∧
    sender.callees = (result.symbols.listener? u outlet).toList ++ receivers ++
      (((n.sinksOf outlet).filter (fun sink => sink.node ∈ result.traversal)).filterMap
        (fun sink => d.partition.trigger? sink.node)).eraseDups
  listener : (result.symbols.listener? u outlet).isSome = true ↔
    outlet ∈ (result.settings.outletListeners.get? u).getD []
  symbol : sender.symbol = Draft.senderSymbol (Symbols.stem result.settings.debug n) outlet sender.callees
  stored : result.symbols.portlet .snds u outlet = .ok sender.symbol
  function : 1 < sender.callees.length → ∃ body, body.Calls sender.callees ∧
    .function (Draft.messageFunction sender.symbol body) ∈ result.program.content
  closed : ∀ callee ∈ sender.callees,
    result.Defines callee ∨ (result.symbols.listener? u outlet = some callee ∧ result.Imports callee)

/-- The receiver is called by a sender, or by a function that the host calls. -/
def Draft.IsCalled (d : Draft) (receiver : String) : Prop :=
  (∃ m ∈ d.nodes.values, ∃ sender ∈ m.senders.values, receiver ∈ sender.callees) ∨
    ∃ caller ∈ d.inletCallers, caller.receiver = receiver

namespace Passes
variable {input : BuildInput} {full : List String} {passes : Passes input full} {p : Partition} (lead : passes.Lead p)
include lead

theorem Lead.defines_receiver {v inlet symbol : String} (member : v ∈ full)
    (given : passes.finished.symbols.at? (.portlet .rcvs v inlet) = some symbol) (provenance : Provenance) :
    (passes.result provenance).Defines symbol := by
  obtain ⟨m, stored⟩ := Table.mem_keys_iff.mp ((lead.mem_keys_iff v).mpr member)
  obtain ⟨n, _, received, _⟩ := lead.messages stored
  obtain ⟨body, function⟩ := received.defined inlet symbol given
  refine ⟨body, (Draft.functionsOf_program passes.assembles).receivers m ?_ _ ?_⟩
  · exact Table.mem_values_iff.mpr ⟨v, stored⟩
  · exact Table.mem_values_iff.mpr ⟨inlet, function⟩

omit lead in
theorem defines_trigger {id function : String} (runs : passes.finished.draft.partition.trigger? id = some function)
    (provenance : Provenance) : (passes.result provenance).Defines function := by
  obtain ⟨c, listed, rfl⟩ := Draft.exists_of_trigger? runs
  exact (Draft.functionsOf_program passes.assembles).cold c listed

omit lead in
theorem imports_listener {u outlet symbol : String} (given : passes.finished.symbols.listener? u outlet = some symbol)
    (provenance : Provenance) : (passes.result provenance).Imports symbol := by
  obtain ⟨ns, found, stored⟩ := Option.bind_eq_some_iff.mp given
  refine List.mem_append_right _ (List.mem_map_of_mem (List.mem_flatMap.mpr ⟨ns, ?_, ?_⟩))
  · exact Table.mem_values_iff.mpr ⟨u, found⟩
  · exact Table.mem_values_iff.mpr ⟨outlet, stored⟩

end Passes

variable {g : Graph} {r : Registry} {s : Settings} {full : List String} {passes : Passes ⟨g.trim full, r, s⟩ full}
  {p : Partition}

/-- Every message outlet of a kept node is served. -/
theorem Passes.Lead.outletServed (lead : passes.Lead p) (keyed : ∀ {key n}, g.get? key = some n → n.id = key)
    {u : String} {n : Node} (found : g.get? u = some n) (kept : u ∈ full) {o : Portlet} (outlet : o ∈ n.outletsOf .message)
    (provenance : Provenance) :
    ∃ m sender, passes.finished.draft.nodes.get? u = some m ∧ m.senders.get? o.id = some sender ∧
      OutletServed (passes.result provenance) passes.finished.draft u n o.id sender := by
  obtain ⟨m, stored⟩ := Table.mem_keys_iff.mp ((lead.mem_keys_iff u).mpr kept)
  have trimmed : (g.trim full).get? u = some (Graph.trimNode full n) := (Graph.get?_trim keyed).mpr ⟨n, found, kept, rfl⟩
  obtain ⟨n', found', _, sent⟩ := lead.messages stored
  cases trimmed.symm.trans found'
  obtain ⟨plan, sender, planned, senderStored, isSender⟩ := sent o outlet
  have callees := isSender.callees
  rw [Draft.callees_eq_append lead.numbered lead.shaped planned, Graph.sinksOf_trimNode] at callees
  obtain ⟨listener, receivers, rfl, heard, declared, related⟩ := planned
  have listened : passes.finished.symbols.listener? u o.id ≠ none → o.id ∈ (s.outletListeners.get? u).getD [] := by
    intro given
    have resolved : Draft.Given ⟨g.trim full, r, s⟩ (.listener u o.id) := passes.given given
    exact resolved
  have same : passes.finished.symbols.listener? u o.id = listener := by
    cases listener with
    | some l => exact heard l rfl
    | none =>
      by_contra given
      exact declared (listened given) rfl
  subst same
  rw [Graph.sinksOf_trimNode] at related
  have served : ∀ callee ∈ sender.callees, Text.isNamePart callee = true ∧ ((passes.result provenance).Defines callee ∨
      (passes.finished.symbols.listener? u o.id = some callee ∧ (passes.result provenance).Imports callee)) := by
    intro callee member
    rw [callees, List.mem_append, List.mem_append, Option.mem_toList, List.mem_eraseDups] at member
    rcases member with (isListener | isReceiver) | isTrigger
    · refine ⟨passes.allNames.symbols.symbols (.listener u o.id) callee isListener, .inr ⟨isListener, ?_⟩⟩
      exact Passes.imports_listener isListener provenance
    · obtain ⟨sink, listed, given⟩ := exists_left_of_forall₂ related isReceiver
      refine ⟨passes.allNames.symbols.symbols _ callee given, .inl (lead.defines_receiver ?_ given provenance)⟩
      exact of_decide_eq_true (List.mem_filter.mp listed).2
    · obtain ⟨sink, _, runs⟩ := List.mem_filterMap.mp isTrigger
      exact ⟨passes.isNamePart_trigger runs, .inl (Passes.defines_trigger runs provenance)⟩
  refine ⟨m, sender, stored, senderStored, ⟨receivers, ?_, callees⟩, ?_, ?_, ?_, fun several => ?_,
    fun callee member => (served callee member).2⟩
  · exact related.imp (fun _ _ given => Symbols.portlet_eq_ok_iff.mpr given)
  · rw [Option.isSome_iff_ne_none]
    exact ⟨listened, declared⟩
  · have stem := lead.stem? (Graph.keyed_trim g full) u
    rw [trimmed] at stem
    rw [isSender.callees]
    exact isSender.symbol (passes.sendersUnnamed u) _ stem
  · exact Symbols.portlet_eq_ok_iff.mpr isSender.stored
  · have needed : sender.needsFunction = true := by
      rw [isSender.dedicated, ← isSender.callees]
      exact decide_eq_true several
    have filled : sender.callees ≠ [] := List.ne_nil_of_length_pos (Nat.zero_lt_of_lt several)
    exact ⟨_, Draft.calls_callLines filled (fun callee member => (served callee member).1),
      (Draft.functionsOf_program passes.assembles).senders m (Table.mem_values_iff.mpr ⟨u, stored⟩) sender
        (Table.mem_values_iff.mpr ⟨o.id, senderStored⟩) needed⟩

/-- Every receiver of a well-formed graph is called. -/
theorem Passes.Lead.isCalled (lead : passes.Lead p) (wf : g.WellFormed)
    (callers : List.Forall₂ (Draft.CallerOf passes.finished.symbols passes.finished.draft.partition)
      (Draft.called ⟨g.trim full, r, s⟩ passes.finished.draft) passes.finished.draft.inletCallers)
    {v : String} {m : NodeDraft} (stored : passes.finished.draft.nodes.get? v = some m) {inlet : String} {f : Func}
    (function : m.receivers.get? inlet = some f) :
    ∃ receiver, f.name = some receiver ∧ passes.finished.draft.IsCalled receiver := by
  obtain ⟨_, _, functions, _⟩ := lead.messages stored
  obtain ⟨receiver, body, given, rfl⟩ := functions.named inlet f function
  refine ⟨receiver, rfl, ?_⟩
  have resolved : Draft.Given ⟨g.trim full, r, s⟩ (.portlet .rcvs v inlet) := passes.given (by rw [given]; simp)
  obtain ⟨n, found, ⟨i, listed, own⟩, received⟩ := resolved
  rw [Draft.receives, Bool.or_eq_true] at received
  rcases received with called | fed
  · -- The host calls the inlet.
    have place : (v, inlet) ∈ Draft.called ⟨g.trim full, r, s⟩ passes.finished.draft := by
      refine Draft.mem_called_iff.mpr ⟨Table.mem_keys_of_get? stored, ?_⟩
      cases inlets : s.inletCallers.get? v with
      | none => simp [inlets] at called
      | some names => exact ⟨names, rfl, by simpa [inlets] using called⟩
    obtain ⟨caller, member, _, _, same, _⟩ := exists_right_of_forall₂ callers place
    cases given.symm.trans same
    exact .inr ⟨caller, member, rfl⟩
  · -- A sender feeds the inlet.
    have trimmedWf := Graph.wellFormed_trim wf full
    have connected : n.sourcesOf inlet ≠ [] := by simpa using fed
    obtain ⟨source, recorded⟩ := List.exists_mem_of_ne_nil _ connected
    obtain ⟨declared, kind⟩ := (Graph.mem_inletsOf_iff trimmedWf found).mp listed
    have connects : (g.trim full).Connects .message ⟨source, ⟨v, inlet⟩⟩ :=
      (Graph.connects_iff_source trimmedWf).mpr ⟨n, i, found, own ▸ declared, kind, recorded⟩
    obtain ⟨origin, o, originFound, outlet, outletKind, sink⟩ := connects
    have isOutlet : o.id = source.portlet := trimmedWf.outletId originFound outlet
    have kept : source.node ∈ full := ((Graph.get?_trim wf.keyed).mp originFound).choose_spec.2.1
    obtain ⟨k, kStored⟩ := Table.mem_keys_iff.mp ((lead.mem_keys_iff source.node).mpr kept)
    obtain ⟨origin', originFound', _, sent⟩ := lead.messages kStored
    cases originFound.symm.trans originFound'
    obtain ⟨plan, sender, planned, senderStored, isSender⟩ :=
      sent o ((Graph.mem_outletsOf_iff trimmedWf originFound).mpr ⟨isOutlet.symm ▸ outlet, outletKind⟩)
    obtain ⟨receiver', inPlan, given'⟩ := planned.receiver (isOutlet.symm ▸ sink)
    cases given.symm.trans given'
    refine .inl ⟨k, Table.mem_values_iff.mpr ⟨_, kStored⟩, sender, Table.mem_values_iff.mpr ⟨_, senderStored⟩, ?_⟩
    rw [isSender.callees]
    exact Draft.mem_callees_iff.mpr (.inl inPlan)

/-- Messages reach the host, the receivers and the cold groups in this order, all of which are there, and every receiver
    is reached. -/
theorem message_calls_closed {request : SettingsRequest} {result : CompiledProgram}
    (accepted : g.checkIntegrity = .ok ()) (keyed : g.PortletsKeyed) (compiled : compile g r request = .ok result) :
    ∃ d, (Compilation.run { graph := g, registry := r, request } .assemble).2.draft = some d ∧
      (∀ u ∈ result.traversal, ∃ n, g.get? u = some n ∧ ∀ outlet o, n.outlets.get? outlet = some o → o.kind = .message →
        ∃ m sender, d.nodes.get? u = some m ∧ m.senders.get? outlet = some sender ∧
          OutletServed result d u n outlet sender) ∧
      (∀ caller ∈ d.inletCallers, result.Defines caller.receiver) ∧
      (g.KindsAgree → ∀ v m, d.nodes.get? v = some m → ∀ f ∈ m.receivers.values, .function f ∈ result.program.content ∧
        ∃ receiver, f.name = some receiver ∧ d.IsCalled receiver) := by
  have mirrored := Graph.checkIntegrity_eq_ok_iff.mp accepted
  obtain ⟨s, full, checked, traversal, passes, rfl, draft⟩ := exists_passes compiled
  obtain ⟨p, lead⟩ := passes.exists_lead (Graph.keyed_trim g full)
  obtain ⟨d, _, sameDraft, _, _, _, completed⟩ := (compile_outcome g r request).of_eq_ok compiled
  cases draft.symm.trans sameDraft
  refine ⟨_, draft, fun u kept => ?_, fun caller member => ?_, fun kinds v m stored f member => ?_⟩
  · obtain ⟨m, stored⟩ := Table.mem_keys_iff.mp ((lead.mem_keys_iff u).mpr kept)
    obtain ⟨_, trimmed, _⟩ := lead.messages stored
    obtain ⟨n, found, _, rfl⟩ := (Graph.get?_trim mirrored.keyed).mp trimmed
    refine ⟨n, found, fun outlet o declared kind => ?_⟩
    have own : o.id = outlet := (keyed n (Table.mem_values_iff.mpr ⟨u, found⟩)).2 _ (Table.get?_eq_some_iff.mp declared)
    subst own
    refine lead.outletServed mirrored.keyed found kept (List.mem_filter.mpr ⟨?_, decide_eq_true kind⟩) _
    exact Table.mem_values_iff.mpr ⟨o.id, declared⟩
  · obtain ⟨⟨v, inlet⟩, place, _, _, given, _⟩ := exists_left_of_forall₂ completed.callers member
    have kept : v ∈ full := (lead.mem_keys_iff v).mp (Draft.mem_called_iff.mp place).1
    exact lead.defines_receiver kept given _
  · obtain ⟨inlet, function⟩ := Table.mem_values_iff.mp member
    refine ⟨(Draft.functionsOf_program passes.assembles).receivers m (Table.mem_values_iff.mpr ⟨v, stored⟩) f member, ?_⟩
    exact lead.isCalled (Graph.wellFormed_of_checks accepted keyed kinds) completed.callers stored function

/-- The gain with a variable of its own, so that it stays in its cold group. -/
def heldRegistry : Registry :=
  Draft.gainRegistry.register "gain" {
    flags := ⟨true, false⟩, receivers := fun _ => .ok (.ofList [("0", ⟨.ofCode "return", true⟩)]) }

/-- The host calls the gain and listens to the slider. -/
def heardRequest : SettingsRequest :=
  { Draft.gainRequest with outletListeners := some (.ofList [("slider", ["0"])]) }

/-- A message of the slider goes to the host, to the gain and to the cold group of the gain. -/
theorem message_calls_closed_gain :
    ∃ result d n m sender, compile Draft.gainPatch heldRegistry heardRequest = .ok result ∧
      Draft.gainPatch.get? "slider" = some n ∧ d.nodes.get? "slider" = some m ∧ m.senders.get? "0" = some sender ∧
      OutletServed result d "slider" n "0" sender ∧
      sender.callees = ["outletListeners_slider_0", "gain_RCVS_0", "COLD_0"] ∧ sender.symbol = "slider_SNDS_0" ∧
      ["func slider_SNDS_0(m: Message) -> void \x7b", "    outletListeners_slider_0(m)", "    gain_RCVS_0(m)", "    COLD_0(m)",
        "\x7d"] <:+: result.program.lines "" ∧
      (∀ k, d.nodes.get? "gain" = some k → ∀ f ∈ k.receivers.values, ∃ receiver, f.name = some receiver ∧
        d.IsCalled receiver) := by
  have made : (compile Draft.gainPatch heldRegistry heardRequest).toOption.any (fun result =>
      result.traversal = Draft.gainTraversal ∧
      ["func slider_SNDS_0(m: Message) -> void \x7b", "    outletListeners_slider_0(m)", "    gain_RCVS_0(m)", "    COLD_0(m)",
        "\x7d"] <:+: result.program.lines "") = true := by
    decide +kernel
  have senders : ∀ d ∈ (Compilation.run { graph := Draft.gainPatch, registry := heldRegistry, request := heardRequest }
      .assemble).2.draft, ((d.nodes.get? "slider").bind (fun m => m.senders.get? "0")).map
        (fun sender => (sender.callees, sender.symbol)) =
          some (["outletListeners_slider_0", "gain_RCVS_0", "COLD_0"], "slider_SNDS_0") := by
    decide +kernel
  obtain ⟨result, isResult, holds⟩ := (Option.any_eq_true _ _).mp made
  obtain ⟨order, written⟩ := of_decide_eq_true holds
  have compiled : compile Draft.gainPatch heldRegistry heardRequest = .ok result := toOption_eq_some_iff.mp isResult
  obtain ⟨d, draft, served, _, called⟩ := message_calls_closed (by decide +kernel) (by decide +kernel) compiled
  obtain ⟨n, found, outlets⟩ := served "slider" (by rw [order]; decide)
  have declared : n.outlets.get? "0" = some ⟨"0", .message⟩ := by
    have stored : (Draft.gainPatch.get? "slider").bind (fun n => n.outlets.get? "0") = some ⟨"0", .message⟩ := by
      decide +kernel
    rwa [found] at stored
  obtain ⟨m, sender, mStored, senderStored, outletServed⟩ := outlets "0" _ declared rfl
  have known := senders d draft
  rw [mStored, Option.bind_some, senderStored] at known
  obtain ⟨callees, symbol⟩ := Prod.mk.inj (Option.some.inj known)
  exact ⟨result, d, n, m, sender, compiled, found, mStored, senderStored, outletServed, callees, symbol, written,
    fun k stored f member => (called (by decide +kernel) "gain" k stored f member).2⟩

end DspPatch
