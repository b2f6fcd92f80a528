import DspPatch.Proofs.Compile
import DspPatch.Proofs.Passes

/-!
Which slots have symbols at the end of a compilation. Each pass gives symbols to slots of its own kind only: the portlets
that are resolved, shared code, cold groups, senders. So nothing is received at an inlet without a receiver symbol of its
own, and no sender has a symbol before the messages are made.
-/
namespace DspPatch
namespace Build
variable {α β : Type}

/-- Work that, when it succeeds, has given symbols to such slots only. -/
def Gives (new : SymbolSlot → Prop) (x : Build α) : Prop :=
  ∀ w, Ends x w (fun _ after => Symbols.Within new w.symbols after.symbols) (fun _ => True)

namespace Gives
variable {new : SymbolSlot → Prop}

theorem pure (a : α) : Gives new (Pure.pure a) := fun w => Ends.pure (.refl w.symbols)

theorem bind {x : Build α} {f : α → Build β} (first : Gives new x) (rest : ∀ a, Gives new (f a)) :
    Gives new (x >>= f) := by
  intro w
  refine Ends.bind (first w) (fun a between within => ?_)
  exact (rest a between).mono (fun _ _ later => within.trans later) (fun _ _ => trivial)

theorem lift_bind {x : Except CompileError α} {f : α → Build β} (rest : ∀ a, x = .ok a → Gives new (f a)) :
    Gives new (liftM x >>= f) :=
  fun w => Ends.lift_bind ((Yields.self x).mono (fun a result => rest a result w) (fun _ _ => trivial))

theorem draft : Gives new Build.draft := fun w => Symbols.Within.refl w.symbols

theorem symbols : Gives new Build.symbols := fun w => Symbols.Within.refl w.symbols

theorem nodeIds : Gives new Build.nodeIds := fun w => Symbols.Within.refl w.symbols

theorem modifyDraft (f : Draft → Draft) : Gives new (Build.modifyDraft f) := fun w => Symbols.Within.refl w.symbols

theorem modifyNode (id : String) (f : NodeDraft → NodeDraft) : Gives new (Build.modifyNode id f) := modifyDraft _

theorem name (slot : SymbolSlot) {give : Symbols → Except CompileError (String × Symbols)}
    {fault : Symbols → CompileError → Prop} (isNew : new slot)
    (given : ∀ s, Yields (give s) (fun named => s.Assigns slot named.1 named.2) (fault s)) :
    Gives new (Build.name give) :=
  fun w => Ends.name ((given w.symbols).mono (fun _ assigns => assigns.within isNew) (fun _ _ => trivial))

theorem name_ok (slot : SymbolSlot) {give : Symbols → String × Symbols} (isNew : new slot)
    (assigns : ∀ s : Symbols, s.Assigns slot (give s).1 (give s).2) : Gives new (Build.name (fun s => .ok (give s))) :=
  fun w => (assigns w.symbols).within isNew

theorem discard {x : Build α} (gives : Gives new x) : Gives new (Functor.discard x) :=
  fun w => Ends.discard (gives w)

theorem forM {f : α → Build Unit} {items : List α} (each : ∀ a ∈ items, Gives new (f a)) : Gives new (items.forM f) := by
  intro w
  refine Ends.forM (fun _ now => Symbols.Within new w.symbols now.symbols) (.refl w.symbols) ?_
  intro done a rest now split within
  exact (each a (by simp [split]) now).mono (fun _ _ later => within.trans later) (fun _ _ => trivial)

theorem mapM {f : α → Build β} {items : List α} (each : ∀ a ∈ items, Gives new (f a)) : Gives new (items.mapM f) := by
  intro w
  refine Ends.mapM (fun _ _ now => Symbols.Within new w.symbols now.symbols) (.refl w.symbols) ?_
  intro done a rest results now split within
  exact (each a (by simp [split]) now).mono (fun _ _ later => within.trans later) (fun _ _ => trivial)

theorem pass {expected next : Stage} {work : Build Unit} (gives : Gives new work) : Gives new (Build.pass expected next work) :=
  bind draft (fun _ => lift_bind (fun _ _ => bind gives (fun _ => modifyDraft _)))

theorem of_run {x : Build α} (gives : Gives new x) {w after : Workspace} {a : α} (result : x.run.run w = (.ok a, after)) :
    Symbols.Within new w.symbols after.symbols :=
  (gives w).of_run result

end Gives
end Build

theorem Symbols.attachGlobals_within (s : Symbols) (names : List (String × String)) :
    Symbols.Within (fun slot => ∃ tag name, slot = .global tag name) s (s.attachGlobals names).2 := by
  induction names generalizing s with
  | nil => exact .refl s
  | cons entry rest ih =>
    obtain ⟨tag, name⟩ := entry
    rw [attachGlobals]
    cases result : s.attachGlobal tag name with
    | error e => exact .refl s
    | ok named =>
      have assigns := (s.attachGlobal_yields tag name).of_eq_ok result
      exact (assigns.within ⟨tag, name, rfl⟩).trans (ih named.2)

namespace Draft
open Build
variable {input : BuildInput}

/-- The slots of portlets that are resolved: variables of signal outlets, receivers of inlets that can receive, and what
    the host listens to or calls. -/
def Resolvable (input : BuildInput) : SymbolSlot → Prop
  | .portlet .outs id outlet => ∃ n, input.graph.get? id = some n ∧ ∃ o ∈ n.outletsOf .signal, o.id = outlet
  | .portlet .rcvs id inlet => ∃ n, input.graph.get? id = some n ∧
      (∃ i ∈ n.inletsOf .message, i.id = inlet) ∧
      receives ((input.settings.inletCallers.get? id).getD []) n inlet = true
  | .listener id outlet => outlet ∈ (input.settings.outletListeners.get? id).getD []
  | .caller id inlet => inlet ∈ (input.settings.inletCallers.get? id).getD []
  | _ => False

theorem resolvePortlets_gives : Gives (Resolvable input) (resolvePortlets input) := by
  refine .pass (.bind .nodeIds (fun ids => .bind (.forM (fun id _ => ?_))
    (fun _ => .bind .nodeIds (fun ids => .forM (fun id _ => ?_)))))
  · refine .lift_bind (fun n node => ?_)
    have found := Graph.node_eq_ok_iff.mp node
    refine .bind (.forM (fun o outlet => ?_)) (fun _ => .bind (.forM (fun i inlet => .discard ?_))
      (fun _ => .bind (.forM (fun outlet listened => .discard ?_)) (fun _ => .forM (fun inlet called => .discard ?_))))
    · refine .bind (.name (.portlet .outs id o.id) ⟨n, found, o, outlet, rfl⟩
        (fun s => s.attachPortlet_yields .outs id o.id)) (fun _ => .modifyNode _ _)
    · obtain ⟨listed, received⟩ := List.mem_filter.mp inlet
      exact .name (.portlet .rcvs id i.id) ⟨n, found, ⟨i, listed, rfl⟩, received⟩
        (fun s => s.attachPortlet_yields .rcvs id i.id)
    · exact .name (.listener id outlet) listened (fun s => s.attachListener_yields id outlet)
    · exact .name (.caller id inlet) called (fun s => s.attachCaller_yields id inlet)
  · refine .lift_bind (fun n _ => .bind (.forM (fun _ _ => ?_)) (fun _ => .forM (fun _ _ => ?_)))
    · exact .bind .symbols (fun _ => .lift_bind (fun _ _ => .modifyNode _ _))
    · exact .bind .symbols (fun _ => .lift_bind (fun _ _ => .modifyNode _ _))

/-- The slots of shared code. -/
def IsShared (slot : SymbolSlot) : Prop := (∃ type, slot = .typeTag type) ∨ ∃ tag name, slot = .global tag name

theorem collectDependencies_gives : Gives IsShared (collectDependencies input) := by
  refine .pass (.bind .nodeIds (fun ids => .lift_bind (fun types _ => ?_)))
  refine .bind (.forM (fun entry _ => ?_)) (fun _ => .bind ?_ (fun _ => .bind (.modifyDraft _)
    (fun _ => .forM (fun entry _ => ?_))))
  · refine .bind (.name_ok (.typeTag entry.1) (.inl ⟨entry.1, rfl⟩) (fun s => s.attachTypeTag_assigns entry.1)) (fun tag => ?_)
    refine .forM (fun name _ => .discard ?_)
    exact .name (.global tag name) (.inr ⟨tag, name, rfl⟩) (fun s => s.attachGlobal_yields tag name)
  · intro w
    refine Ends.symbols_bind (Ends.lift ((Yields.self _).mono (fun shared _ slot given => ?_) (fun _ _ => trivial)))
    rcases w.symbols.attachGlobals_within _ slot given with old | isGlobal
    · exact .inl old
    · exact .inr (.inr isGlobal)
  · exact .bind .symbols (fun _ => .lift_bind (fun _ _ => .modifyDraft _))

theorem partitionDsp_gives : Gives (fun slot => ∃ key, slot = .coldGroup key) (partitionDsp input) := by
  refine .pass (.bind .draft (fun d => .lift_bind (fun signal _ => .bind ?_ (fun p => .bind (.modifyDraft _)
    (fun _ => .bind (.forM (fun id _ => ?_)) (fun _ => .modifyDraft _))))))
  · refine .lift_bind (fun eligible _ => .bind (.mapM (fun entry _ => ?_)) (fun _ => .pure _))
    exact .bind (.name_ok (.coldGroup (toString entry.2)) ⟨_, rfl⟩ (fun s => s.attachColdGroup_assigns entry.2))
      (fun _ => .pure _)
  · exact .bind .symbols (fun _ => .bind .draft (fun _ => .lift_bind (fun _ _ => .modifyDraft _)))

/-- The slots of senders. -/
def IsSender (input : BuildInput) (slot : SymbolSlot) : Prop :=
  ∃ id n, input.graph.get? id = some n ∧ ∃ o ∈ n.outletsOf .message, slot = .portlet .snds id o.id

theorem synthesizeMessages_gives : Gives (IsSender input) (synthesizeMessages input) := by
  refine .pass (.bind .nodeIds (fun ids => .bind (.forM (fun id _ => ?_)) (fun _ => .bind .nodeIds
    (fun ids => .bind (.forM (fun id _ => ?_)) (fun _ => .bind .symbols (fun _ => .bind .draft
      (fun _ => .lift_bind (fun _ _ => .modifyDraft _))))))))
  · refine .lift_bind (fun n node => .forM (fun o outlet => .bind .draft (fun d => .lift_bind (fun m _ =>
      .bind ?_ (fun _ => .modifyNode _ _)))))
    have isSender : IsSender input (.portlet .snds id o.id) := ⟨id, n, Graph.node_eq_ok_iff.mp node, o, outlet, rfl⟩
    unfold nameSender
    split
    · exact .bind (.name _ isSender (fun s => s.aliasSender_yields id o.id _)) (fun _ => .pure _)
    · exact .bind (.name _ isSender (fun s => s.aliasSender_yields id o.id _)) (fun _ => .pure _)
    · exact .bind (.name _ isSender (fun s => s.attachPortlet_yields .snds id o.id)) (fun _ => .pure _)
  · refine .bind .symbols (fun s => .lift_bind (fun symbols _ => ?_))
    show Gives _ (if _ then _ else _)
    split
    · exact .bind .draft (fun _ => .lift_bind (fun _ _ => .modifyNode _ _))
    · exact .pure _

theorem finish_gives : Gives IsShared (finish input) := by
  refine .bind (.pass (.bind .nodeIds (fun ids => .forM (fun id _ => ?_)))) (fun _ => .bind .draft (fun d =>
    .bind .symbols (fun s => ?_)))
  · refine .lift_bind (fun n _ => .lift_bind (fun i _ => .bind .draft (fun d => .bind .symbols (fun s =>
      .lift_bind (fun context _ => .lift_bind (fun m _ => .lift_bind (fun code _ => .bind ?_ (fun _ => .modifyNode _ _))))))))
    unfold makeState
    split
    · exact .pure _
    · refine .bind .symbols (fun s => .lift_bind (fun tag _ => .bind ?_ (fun className => .bind .draft (fun d =>
        .lift_bind (fun _ _ => .bind (.modifyDraft _) (fun _ => .bind .symbols (fun _ => .lift_bind (fun _ _ => .pure _))))))))
      exact .name (.global tag "State") (.inr ⟨tag, "State", rfl⟩) (fun s => s.attachGlobal_yields tag "State")
  · show Gives _ (if _ then _ else _)
    split
    · exact .pure _
    · exact fun w => trivial

/-- The slots that may have symbols at the end: those of portlets belong to portlets that need one. -/
def Given (input : BuildInput) : SymbolSlot → Prop
  | .portlet .snds id outlet => ∃ n, input.graph.get? id = some n ∧ ∃ o ∈ n.outletsOf .message, o.id = outlet
  | .state _ | .global _ _ | .typeTag _ | .coldGroup _ => True
  | slot => Resolvable input slot

theorem Resolvable.given {slot : SymbolSlot} (resolved : Resolvable input slot) : Given input slot := by
  cases slot with
  | portlet kind id own =>
    cases kind with
    | snds => exact resolved.elim
    | outs | rcvs => exact resolved
  | listener | caller => exact resolved
  | state | global | typeTag | coldGroup => trivial

end Draft

/-- What the passes after the traversal leave, one after the other. -/
structure Passes.Lead {input : BuildInput} {full : List String} (passes : Passes input full) (p : Partition) : Prop where
  prepared : Draft.Prepared input full .dependenciesCollected passes.collected
  division : Draft.Divided input.graph p passes.collected passes.divided
  synthesis : Draft.Synthesized input passes.divided passes.spoken
  finishing : Draft.Finished passes.spoken passes.finished
  grows : passes.allocated.Grows passes.finished.symbols

namespace Passes
variable {input : BuildInput} {full : List String} (passes : Passes input full)
include passes

/-- The groups from which the inlined nodes were taken out are those that the nodes were split into. -/
theorem exists_lead_split (keyed : ∀ {id n}, input.graph.get? id = some n → n.id = id) :
    ∃ p signal, passes.Lead p ∧
      input.graph.signalTraversal (fun _ => true) (Draft.pulling input.graph full) = .ok signal ∧
      Draft.SplitFrom input.graph input.registry full signal p ∧
      (Draft.Walked input.graph full signal → ∃ firsts,
        Draft.SplitOf input.graph input.registry full (full.filter (fun id => signal.contains id)) firsts p) := by
  have started := (Draft.start_yields input.graph full).of_eq_ok passes.starts
  obtain ⟨resolved, growsResolved, fresh⟩ := (Draft.resolvePortlets_ends keyed started).of_run passes.resolves
  obtain ⟨prepared, growsCollected, _⟩ := (Draft.collectDependencies_ends resolved fresh).of_run passes.collects
  obtain ⟨signal, p, _, walk, _, division, _, cut, split⟩ := (Draft.partitionDsp_ends prepared).of_run passes.divides
  have present : ∀ id ∈ passes.divided.draft.nodes.keys, ∃ n, input.graph.get? id = some n := by
    intro id member
    exact prepared.present id ((prepared.keys id).mp (division.keys ▸ member))
  have synthesis := (Draft.synthesizeMessages_ends division.staged present).of_run passes.speaks
  obtain ⟨finishing, _⟩ := (Draft.finish_ends synthesis.staged (synthesis.keys.symm ▸ present)).of_run passes.finishes
  have grows := growsResolved.trans (growsCollected.trans
    (division.grows.trans (synthesis.grows.trans finishing.keeps.grows)))
  exact ⟨p, signal, ⟨prepared, division, synthesis, finishing, grows⟩, walk, cut, split⟩

theorem exists_lead (keyed : ∀ {id n}, input.graph.get? id = some n → n.id = id) : ∃ p, passes.Lead p := by
  obtain ⟨p, _, lead, _⟩ := passes.exists_lead_split keyed
  exact ⟨p, lead⟩

theorem initial : Symbols.Initial input.graph input.settings.debug passes.allocated :=
  (Symbols.ofGraph_yields _ _).of_eq_ok passes.allocates

/-- A slot that has a symbol before the messages are made. -/
theorem slot_cases_divided {slot : SymbolSlot} (given : passes.divided.symbols.at? slot ≠ none) :
    (∃ id, slot = .state id) ∨ Draft.Resolvable input slot ∨ Draft.IsShared slot ∨ ∃ key, slot = .coldGroup key := by
  rcases Draft.partitionDsp_gives.of_run passes.divides slot given with given | isCold
  · rcases Draft.collectDependencies_gives.of_run passes.collects slot given with given | isShared
    · rcases Draft.resolvePortlets_gives.of_run passes.resolves slot given with given | isResolved
      · exact .inl (passes.initial.only slot given)
      · exact .inr (.inl isResolved)
    · exact .inr (.inr (.inl isShared))
  · exact .inr (.inr (.inr isCold))

/-- Senders have no symbols before the messages are made. -/
theorem sendersUnnamed (id : String) : Draft.SendersUnnamed passes.divided.symbols id := by
  intro outlet
  by_contra given
  rcases passes.slot_cases_divided given with ⟨_, same⟩ | none | (⟨_, same⟩ | ⟨_, _, same⟩) | ⟨_, same⟩
  · cases same
  · exact none
  · cases same
  · cases same
  · cases same

theorem given {slot : SymbolSlot} (stored : passes.finished.symbols.at? slot ≠ none) : Draft.Given input slot := by
  rcases Draft.finish_gives.of_run passes.finishes slot stored with stored | ⟨_, rfl⟩ | ⟨_, _, rfl⟩
  · rcases Draft.synthesizeMessages_gives.of_run passes.speaks slot stored with stored | ⟨_, n, found, o, listed, rfl⟩
    · rcases passes.slot_cases_divided stored with ⟨_, rfl⟩ | resolved | (⟨_, rfl⟩ | ⟨_, _, rfl⟩) | ⟨_, rfl⟩
      · trivial
      · exact resolved.given
      · trivial
      · trivial
      · trivial
    · exact ⟨n, found, o, listed, rfl⟩
  · trivial
  · trivial

end Passes

namespace Passes.Lead
variable {input : BuildInput} {full : List String} {passes : Passes input full} {p : Partition} (lead : passes.Lead p)
include lead

theorem mem_keys_iff (id : String) : id ∈ passes.finished.draft.nodes.keys ↔ id ∈ full := by
  rw [lead.finishing.keys, lead.synthesis.keys, lead.division.keys]
  exact lead.prepared.keys id

theorem messages {id : String} {m : NodeDraft} (stored : passes.finished.draft.nodes.get? id = some m) :
    ∃ n, input.graph.get? id = some n ∧ Draft.ReceiversOf passes.finished.symbols id m.receivers ∧
      ∀ o ∈ n.outletsOf .message, ∃ plan sender,
        Draft.PlanOf passes.finished.symbols ((input.settings.outletListeners.get? id).getD []) id n o.id plan ∧
        m.senders.get? o.id = some sender ∧ Draft.SenderOf passes.divided.symbols passes.finished.symbols id o.id
          (Draft.callees passes.finished.draft.partition plan (n.sinksOf o.id)) sender := by
  obtain ⟨n, found, received, sent⟩ :=
    Draft.messages_of_passes lead.prepared lead.division lead.synthesis lead.finishing stored
  have grows := lead.finishing.keeps.grows
  refine ⟨n, found, ⟨fun inlet symbol given => ?_, fun inlet f function => ?_⟩, sent⟩
  · -- Finishing the code gives no receiver symbols, so the symbol was there when the receivers were made.
    have present : passes.finished.symbols.at? (.portlet .rcvs id inlet) ≠ none := by simp [given]
    rcases Draft.finish_gives.of_run passes.finishes _ present with before | ⟨_, same⟩ | ⟨_, _, same⟩
    · obtain ⟨old, stored⟩ := Option.ne_none_iff_exists'.mp before
      cases given.symm.trans (grows.kept stored)
      exact received.defined inlet symbol stored
    · cases same
    · cases same
  · obtain ⟨symbol, body, given, same⟩ := received.named inlet f function
    exact ⟨symbol, body, grows.kept given, same⟩

theorem numbered : Draft.Numbered passes.finished.symbols passes.finished.draft.partition.cold := by
  have keeps := lead.synthesis.keepsGroups.trans lead.finishing.keepsGroups
  rw [keeps.partition, lead.division.partition]
  exact (lead.division.numbered.mono keeps.grows).without _

theorem shaped : passes.finished.symbols.Shaped := passes.initial.shaped.mono lead.grows

theorem stem? (keyed : ∀ {id n}, input.graph.get? id = some n → n.id = id) (id : String) :
    passes.finished.symbols.stem? id = (input.graph.get? id).map (Symbols.stem input.settings.debug) := by
  rw [lead.grows.stems]
  exact passes.initial.stems keyed id

end Passes.Lead
end DspPatch
