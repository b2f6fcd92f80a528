import DspPatch.Program
import DspPatch.Proofs.Draft.AlikePasses

/-!
Messages, node code and programs side by side. In alike drafts every outlet has as many callees, since the functions of
cold groups have names of their own and are added to both or to neither. The report of a message that was not handled
can be written with and without the debug flag, and the certificates of alike drafts are the same.
-/
namespace DspPatch.Draft
open Build
variable {input : BuildInput} {debug : Bool} {w v : Workspace} {s t : Symbols} {d e : Draft}

/-- A cold group is called in both places or in neither, so its function is added to both or to neither. -/
theorem appendNew_related {as bs : List String} (related : List.Forall₂ SameCallee as bs) {function : String}
    (isCold : IsColdName function) : List.Forall₂ SameCallee (appendNew as function) (appendNew bs function) := by
  have listed : function ∈ as ↔ function ∈ bs := by
    constructor
    · intro member
      obtain ⟨b, inside, rfl | ⟨_, warm, _⟩⟩ := exists_right_of_forall₂ related member
      · exact inside
      · exact absurd isCold warm
    · intro member
      obtain ⟨a, inside, rfl | ⟨_, _, warm⟩⟩ := exists_left_of_forall₂ related member
      · exact inside
      · exact absurd isCold warm
  have same : as.contains function = bs.contains function := by
    rw [Bool.eq_iff_iff, List.contains_iff_mem, List.contains_iff_mem]
    exact listed
  unfold appendNew
  rw [same]
  split
  · exact related
  · exact List.rel_append related (.cons (.inl rfl) .nil)

theorem callees_related {p : Partition} (cold : ∀ c ∈ p.cold, IsColdName c.function) {as bs : List String}
    (plans : List.Forall₂ SameCallee as bs) (sinks : List Endpoint) :
    List.Forall₂ SameCallee (callees p as sinks) (callees p bs sinks) := by
  have functions : ∀ function ∈ sinks.filterMap (fun sink => p.trigger? sink.node), IsColdName function := by
    intro function member
    obtain ⟨sink, _, runs⟩ := List.mem_filterMap.mp member
    obtain ⟨c, listed, rfl⟩ := exists_of_trigger? runs
    exact cold c listed
  unfold callees
  generalize sinks.filterMap (fun sink => p.trigger? sink.node) = found at functions
  induction found generalizing as bs with
  | nil => exact plans
  | cons function rest ih =>
    rw [List.forall_mem_cons] at functions
    exact ih (appendNew_related plans functions.1) functions.2

theorem nameSender_together (alike : w.Alike v) (id outlet : String) {as bs : List String}
    (called : List.Forall₂ SameCallee as bs) :
    Together (nameSender id outlet as) (nameSender id outlet bs) w v (fun a b w v =>
      (a.callees.length = b.callees.length ∧ a.needsFunction = b.needsFunction) ∧ w.Alike v) := by
  cases called with
  | nil =>
    refine .bind (alike.name (alike.symbols.assignPortlet .snds id outlet (fun _ _ _ => .inl rfl))) ?_
    exact fun _ _ _ _ holds => .pure ⟨⟨rfl, rfl⟩, holds.2⟩
  | cons first rest =>
    cases rest with
    | nil =>
      refine .bind (alike.name (alike.symbols.assignPortlet .snds id outlet (fun _ _ _ => first))) ?_
      exact fun _ _ _ _ holds => .pure ⟨⟨rfl, rfl⟩, holds.2⟩
    | cons second rest =>
      refine .bind (alike.name (alike.symbols.attachPortlet .snds id outlet)) (fun _ _ _ _ holds => .pure ⟨⟨?_, rfl⟩, holds.2⟩)
      exact (List.Forall₂.cons first (.cons second rest)).length_eq

theorem makeSenders_together (alike : w.Alike v) (id : String) :
    Together (makeSenders input id) (makeSenders (input.withDebug debug) id) w v (fun _ _ => Workspace.Alike) := by
  refine .lift_bind_same (fun n _ => .forM alike (fun outlet _ w v alike => .draft_bind (.lift_bind
    ((alike.draft.node id).mono (fun m m' _ _ pair => ?_)))))
  have plans : List.Forall₂ SameCallee ((m.senderPlans.get? outlet.id).getD []) ((m'.senderPlans.get? outlet.id).getD []) := by
    rcases pair.senderPlans.get? outlet.id with ⟨left, right⟩ | ⟨a, b, left, right, plans⟩
    · rw [left, right]
      exact .nil
    · rw [left, right]
      exact plans
  have called := callees_related alike.draft.cold plans (n.sinksOf outlet.id)
  rw [← alike.draft.partition]
  refine .bind (nameSender_together alike id outlet.id called) ?_
  rintro a b w v ⟨same, alike⟩
  exact alike.modifyNode id (fun _ _ pair => { pair with senders := pair.senders.insert outlet.id same })

theorem unhandledMessage_ok {symbol : String} (displays : s.global "msg" "display" = .ok symbol) (debug : Bool)
    (type id inlet : String) : ∃ text, unhandledMessage s debug type id inlet = .ok text := by
  unfold unhandledMessage
  rw [displays]
  cases debug <;> exact ⟨_, rfl⟩

theorem receiverFunction_agree (symbols : s.Alike t) {symbol : String} (displays : s.global "msg" "display" = .ok symbol)
    {bodies bodies' : Table Receiver} (related : bodies.Related (fun a b => a.exhaustive = b.exhaustive) bodies')
    (n : Node) (id inlet : String) : Agree (fun _ _ => True) (receiverFunction input s n id inlet bodies)
      (receiverFunction (input.withDebug debug) t n id inlet bodies') := by
  have displays' : t.global "msg" "display" = .ok symbol := by
    obtain ⟨nodes, rfl, _, _⟩ := symbols
    exact displays
  -- The flag chooses between two texts about an unhandled message, so neither may fail.
  obtain ⟨text, made⟩ := unhandledMessage_ok displays input.settings.debug n.type id inlet
  obtain ⟨text', made'⟩ := unhandledMessage_ok displays' debug n.type id inlet
  unfold receiverFunction
  rcases related.get? inlet with ⟨left, right⟩ | ⟨a, b, left, right, same⟩
  · rw [left, right]
    exact .error _
  · rw [left, right]
    dsimp only
    rw [made, same, show (input.withDebug debug).settings.debug = debug from rfl, made']
    split
    · exact (symbols.portlet .rcvs id inlet).bind (fun _ _ _ => .ok trivial)
    · exact (symbols.portlet .rcvs id inlet).bind (fun _ _ _ => .ok trivial)

theorem receiverFunctions_agree (uniform : input.registry.Uniform) (symbols : s.Alike t) (alike : d.Alike e) {symbol : String}
    (displays : s.global "msg" "display" = .ok symbol) (id : String) (inlets : List String) : Agree (fun _ _ => True)
      (receiverFunctions input s d id inlets) (receiverFunctions (input.withDebug debug) t e id inlets) := by
  refine Agree.bind (.same rfl) (fun n _ same => ?_)
  cases same
  refine Agree.bind (.of_yields (Yields.self (input.registry.implementation n))) ?_
  rintro i _ ⟨rfl, found⟩
  have own := uniform.types _ _ (Registry.implementation_eq_ok_iff.mp found)
  refine (context_agree symbols alike id).bind (fun _ _ contexts => (own.receivers contexts).bind
    (fun bodies bodies' related => (Agree.mapM (fun _ _ => True) (fun inlet _ => ?_)).bind (fun _ _ _ => .ok trivial)))
  exact (receiverFunction_agree symbols displays related n id inlet).bind (fun _ _ _ => .ok trivial)

theorem makeReceivers_together (uniform : input.registry.Uniform) (alike : w.Alike v) (displays : w.Displays) (id : String) :
    Together (makeReceivers input id) (makeReceivers (input.withDebug debug) id) w v (fun _ _ => Workspace.Alike) := by
  obtain ⟨symbol, displays⟩ := displays
  refine .symbols_bind (.lift_bind ((alike.symbols.node id).mono (fun a b _ _ pair => ?_)))
  rw [show a.rcvs.entries.keys = b.rcvs.entries.keys from (pair.slot .rcvs).entries.keys_eq]
  show Together (if _ then _ else _) (if _ then _ else _) w v _
  split
  · refine .draft_bind (.lift_bind ((receiverFunctions_agree uniform alike.symbols alike.draft displays id _).mono ?_))
    exact fun _ _ _ _ _ => alike.modifyNode id (fun _ _ pair => { pair with stage := pair.stage })
  · exact .pure alike

theorem inletCaller_agree (symbols : s.Alike t) (p q : Partition) (id inlet : String) :
    Agree (fun _ _ => True) (inletCaller s p id inlet) (inletCaller t q id inlet) := by
  have callers : t.caller? = s.caller? := by
    obtain ⟨nodes, rfl, _, _⟩ := symbols
    rfl
  unfold inletCaller
  rw [callers]
  split
  · exact .error _
  · exact (symbols.portlet .rcvs id inlet).bind (fun _ _ _ => .ok trivial)

theorem inletCallersOf_agree (symbols : s.Alike t) (alike : d.Alike e) :
    Agree (fun _ _ => True) (inletCallersOf input s d) (inletCallersOf (input.withDebug debug) t e) := by
  unfold inletCallersOf
  rw [show d.nodes.contains = e.nodes.contains from funext alike.nodes.contains_eq,
    show (input.withDebug debug).settings.inletCallers = input.settings.inletCallers from rfl]
  refine (Agree.mapM (fun _ _ => True) (fun called _ => ?_)).mono (fun _ _ _ _ _ => trivial)
  exact inletCaller_agree symbols d.partition e.partition called.1 called.2

theorem synthesizeMessages_together (uniform : input.registry.Uniform) (alike : w.Alike v) (displays : w.Displays) :
    Together (synthesizeMessages input) (synthesizeMessages (input.withDebug debug)) w v (fun _ _ => Workspace.Alike) := by
  refine alike.pass (.nodeIds_bind ?_)
  rw [alike.draft.nodes.keys_eq]
  have senders : Leaves (Changes input.graph) (v.draft.nodes.keys.forM (makeSenders input)) w :=
    .forM (fun id _ _ => makeSenders_changes id)
  refine .bind (Together.with_leaves (.forM alike (fun id _ w v alike => makeSenders_together alike id)) senders) ?_
  rintro _ _ now last ⟨alike, changes⟩
  have displays := (changes.minimal (fun _ _ => Change.keeps)).displays displays
  refine .nodeIds_bind ?_
  rw [alike.draft.nodes.keys_eq]
  refine .bind (show Together _ _ now last (fun _ _ w v => w.Alike v ∧ w.Displays) from
    .forM ⟨alike, displays⟩ ?_) ?_
  · rintro id _ w v ⟨alike, displays⟩
    refine ((makeReceivers_together uniform alike displays id).with_leaves (makeReceivers_changes id)).mono ?_
    rintro _ _ w v ⟨alike, changes⟩
    exact ⟨alike, (changes.minimal (fun _ _ => Change.keeps)).displays displays⟩
  · rintro _ _ w v ⟨alike, _⟩
    refine .symbols_bind (.draft_bind (.lift_bind ((inletCallersOf_agree alike.symbols alike.draft).mono ?_)))
    exact fun _ _ _ _ _ => alike.modifyDraft ⟨alike.draft.nodes, alike.draft.types, alike.draft.partition, alike.draft.cold⟩

/-- Generated code that declares the same members, and loop code in both or in neither. -/
structure GeneratedCode.Alike (a b : GeneratedCode) : Prop where
  members : a.members.map (fun m => (m.type, m.name)) = b.members.map (fun m => (m.type, m.name))
  loop : a.loop.isSome = b.loop.isSome

theorem generate_agree {i : Implementation} (uniform : i.Uniform) {c c' : NodeContext} (contexts : c.Alike c')
    {n m : NodeDraft} (pair : n.Alike m) : Agree GeneratedCode.Alike (generate i c n) (generate i c' m) := by
  refine (uniform.state contexts).bind (fun _ _ members => (uniform.declarations contexts).bind (fun _ _ _ => ?_))
  rw [pair.inlined, pair.loopResolved]
  split
  · exact .ok ⟨members, rfl⟩
  · split
    · exact (uniform.inletDsp contexts).bind (fun _ _ _ => .ok ⟨members, rfl⟩)
    · have loops : Agree (fun a b => a.isSome = b.isSome) ((i.loop c).map some) ((i.loop c').map some) :=
        (uniform.loop contexts).map (fun _ _ _ => rfl)
      exact loops.bind (fun _ _ loop => (uniform.inletDsp contexts).bind (fun _ _ _ => .ok ⟨members, loop⟩))

theorem declareState_agree (alike : d.Alike e) (id type className : String) {ms ns : List StateMember}
    (members : ms.map (fun m => (m.type, m.name)) = ns.map (fun m => (m.type, m.name))) :
    Agree Draft.Alike (declareState d id type className ms) (declareState e id type className ns) := by
  have declared : ms.map (fun m => Var.plain m.type m.name) = ns.map (fun m => Var.plain m.type m.name) := by
    have vars := congrArg (List.map (fun entry : String × String => Var.plain entry.1 entry.2)) members
    rwa [List.map_map, List.map_map] at vars
  unfold declareState
  dsimp only
  rw [alike.types, declared]
  split
  · exact .ok ⟨alike.nodes, rfl, alike.partition, alike.cold⟩
  · split
    · exact .ok alike
    · exact .error _

theorem makeState_together (alike : w.Alike v) (id type : String) {ms ns : List StateMember}
    (members : ms.map (fun m => (m.type, m.name)) = ns.map (fun m => (m.type, m.name))) :
    Together (makeState id type ms) (makeState id type ns) w v (fun _ _ => Workspace.Alike) := by
  have empty : ms.isEmpty = ns.isEmpty := by
    rw [← List.isEmpty_map, members, List.isEmpty_map]
  unfold makeState
  rw [empty]
  split
  · exact .pure alike
  · refine .symbols_bind (.lift_bind ((Agree.same (alike.symbols.typeTag_eq type)).mono ?_))
    rintro tag _ _ _ rfl
    refine .bind (alike.name (alike.symbols.attachGlobal tag "State")) ?_
    rintro className _ w v ⟨rfl, alike⟩
    refine .draft_bind (.lift_bind ((declareState_agree alike.draft id type className members).mono ?_))
    intro _ _ _ _ declared
    refine .bind (alike.modifyDraft declared) (fun _ _ w v alike => .symbols_bind (.lift_bind
      ((alike.symbols.node id).mono (fun _ _ _ _ _ => .pure alike))))

theorem finalizeNode_together (uniform : input.registry.Uniform) (alike : w.Alike v) (id : String) :
    Together (finalizeNode input id) (finalizeNode (input.withDebug debug) id) w v (fun _ _ => Workspace.Alike) := by
  refine .lift_bind_same (fun node _ => .lift_bind_same (fun i found => .draft_bind (.symbols_bind ?_)))
  have own := uniform.types _ _ (Registry.implementation_eq_ok_iff.mp found)
  refine .lift_bind ((context_agree alike.symbols alike.draft id).mono (fun c c' _ _ contexts => ?_))
  refine .lift_bind ((alike.draft.node id).mono (fun n m _ _ pair => ?_))
  refine .lift_bind ((generate_agree own contexts pair).mono (fun code code' _ _ same => ?_))
  refine .bind (makeState_together alike id node.type same.members) (fun _ _ w v alike => alike.modifyNode id ?_)
  exact fun n m pair => { pair with loopResolved := by rw [same.loop, pair.loopResolved] }

theorem certificate_eq (symbols : s.Alike t) (alike : d.Alike e) : d.certificate s = e.certificate t := by
  obtain ⟨nodes, rfl, _, _⟩ := symbols
  have pairs : List.Forall₂ (fun a b => a.1 = b.1 ∧ a.2.Alike b.2) d.nodes.entries e.nodes.entries := alike.nodes
  have finalized : d.nodes.values.all (fun n => n.stage = .finalized) = e.nodes.values.all (fun n => n.stage = .finalized) := by
    unfold Table.values
    generalize d.nodes.entries = left at pairs ⊢
    generalize e.nodes.entries = right at pairs ⊢
    induction pairs with
    | nil => rfl
    | cons first _ ih => rw [List.map_cons, List.map_cons, List.all_cons, List.all_cons, ih, first.2.stage]
  have elided (members : List String) :
      d.nodes.entries.all (fun entry => !entry.2.inlined || (!members.contains entry.1 && entry.2.signalOuts.isEmpty)) =
        e.nodes.entries.all (fun entry => !entry.2.inlined || (!members.contains entry.1 && entry.2.signalOuts.isEmpty)) := by
    generalize d.nodes.entries = left at pairs ⊢
    generalize e.nodes.entries = right at pairs ⊢
    induction pairs with
    | nil => rfl
    | cons first _ ih =>
      have outs := first.2.signalOuts.isEmpty_eq
      rw [List.all_cons, List.all_cons, ih, first.1, first.2.inlined, outs]
  unfold Draft.certificate
  rw [show d.nodes.contains = e.nodes.contains from funext alike.nodes.contains_eq, alike.partition, finalized]
  congr 1
  exact elided e.partition.members

theorem finish_together (uniform : input.registry.Uniform) (alike : w.Alike v) :
    Together (finish input) (finish (input.withDebug debug)) w v (fun a b w v => a = b ∧ w.Alike v) := by
  have finalized : Together (finalizeNodeCode input) (finalizeNodeCode (input.withDebug debug)) w v
      (fun _ _ => Workspace.Alike) := by
    refine alike.pass (.nodeIds_bind ?_)
    rw [alike.draft.nodes.keys_eq]
    exact .forM alike (fun id _ w v alike => finalizeNode_together uniform alike id)
  refine .bind finalized (fun _ _ w v alike => .draft_bind (.symbols_bind ?_))
  dsimp only
  rw [certificate_eq alike.symbols alike.draft]
  split
  · exact .pure ⟨rfl, alike⟩
  · exact .error _

/-- Assembling fails alike too. -/
theorem program_agree (symbols : s.Alike t) (alike : d.Alike e) :
    Agree (fun _ _ => True) (d.program s) (e.program t) := by
  have inletElements (inlet : Endpoint) : Agree (fun _ _ => True) (d.inletElements inlet) (e.inletElements inlet) :=
    (alike.node inlet.node).bind (fun _ _ _ => .ok trivial)
  have hotBody : Agree (fun _ _ => True) d.hotBody e.hotBody := by
    unfold Draft.hotBody
    rw [alike.partition]
    refine (Agree.mapM (fun _ _ => True) (fun id _ => ?_)).bind (fun _ _ _ => .ok trivial)
    exact (alike.node id).bind (fun _ _ _ => .ok trivial)
  have coldFunction (c : ColdGroup) : Agree (fun _ _ => True) (d.coldFunction c) (e.coldFunction c) := by
    refine (Agree.mapM (fun _ _ => True) (fun id _ => ?_)).bind (fun _ _ _ =>
      (Agree.mapM (fun _ _ => True) (fun inlet _ => inletElements inlet)).bind (fun _ _ _ => .ok trivial))
    exact (alike.node id).bind (fun _ _ _ => .ok trivial)
  have engine : Agree (fun _ _ => True) (engineGlobals s) (engineGlobals t) :=
    Agree.bind (.same (symbols.global_eq "msg" "create")) (fun _ _ _ => .ok trivial)
  have loop : Agree (fun _ _ => True) (d.frameLoop s) (e.frameLoop t) :=
    Agree.bind (.same (symbols.global_eq "commons" "emitFrame")) (fun _ _ _ => hotBody.bind (fun _ _ _ => .ok trivial))
  refine Agree.bind (.same (alike.expectStage_eq .finalized)) (fun _ _ _ => engine.bind (fun _ _ _ => loop.bind
    (fun _ _ _ => ?_)))
  rw [alike.partition]
  exact (Agree.mapM (fun _ _ => True) (fun c _ => coldFunction c)).bind (fun _ _ _ => .ok trivial)

end DspPatch.Draft
