import DspPatch.Proofs.Draft.Messages
import DspPatch.Proofs.Draft.Stages
import DspPatch.Proofs.Passes
import DspPatch.Proofs.SymbolRequests
import Mathlib.Logic.Relation

/-!
What the steps of a draft can do to a workspace. `Change` lists the single changes with what is known when they are made,
and every step is a sequence of them, whether it succeeds or fails (`Step.changes`). An invariant of drafts and symbols is
therefore shown one change at a time.
-/
namespace DspPatch
namespace Draft
open Build Relation

/-- Somebody whom a message outlet may call: a member of a plan, or the function of a cold group. -/
def Calls (d : Draft) (callee : String) : Prop :=
  (∃ id n outlet plan, d.nodes.get? id = some n ∧ n.senderPlans.get? outlet = some plan ∧ callee ∈ plan) ∨
    ∃ c ∈ d.partition.cold, c.function = callee

/-- What is copied is the symbol of nobody or of a callee, and it is given to a sender. -/
def Allows (d : Draft) : SymbolRequest → Prop
  | .aliasPortlet slot _ _ symbol => slot = .snds ∧ (symbol = Engine.nullReceiver ∨ d.Calls symbol)
  | _ => True

/-- One change that a step makes. -/
inductive Change (g : Graph) : Workspace → Workspace → Prop where
  | request {w : Workspace} (request : SymbolRequest) {symbol : String} {symbols : Symbols}
      (allowed : w.draft.Allows request) (given : request.give w.symbols = .ok (symbol, symbols)) :
      Change g w { w with symbols }
  /-- The variable of a signal outlet is noted. -/
  | outlet {w : Workspace} (id : String) {outlet symbol : String}
      (given : w.symbols.at? (.portlet .outs id outlet) = some symbol) :
      Change g w { w with draft := w.draft.modifyNode id (fun n =>
        { n with signalOuts := n.signalOuts.insert outlet symbol }) }
  | inlet {w : Workspace} (id : String) {n : Node} {inlet expression : String}
      (made : inletExpression g w.symbols n inlet = .ok expression) :
      Change g w { w with draft := w.draft.modifyNode id (fun n =>
        { n with signalIns := n.signalIns.insert inlet expression }) }
  | plan {w : Workspace} (id : String) {n : Node} {outlet : String} {plan : List String}
      (made : senderPlan g w.symbols n outlet = .ok plan) :
      Change g w { w with draft := w.draft.modifyNode id (fun n =>
        { n with senderPlans := n.senderPlans.insert outlet plan }) }
  /-- Portlets and plans of a node stay. -/
  | code {w : Workspace} (id : String) {f : NodeDraft → NodeDraft} (ins : ∀ n, (f n).signalIns = n.signalIns)
      (outs : ∀ n, (f n).signalOuts = n.signalOuts) (plans : ∀ n, (f n).senderPlans = n.senderPlans) :
      Change g w { w with draft := w.draft.modifyNode id f }
  | inline {w : Workspace} (id sink : String) {n : NodeDraft} {symbol expression : String} {sequence : Sequence}
      (stored : w.draft.nodes.get? id = some n) (own : symbol ∈ n.signalOuts.values)
      (isExpression : sequence.expression? = some expression) :
      Change g w { w with draft := w.draft.inlineInto id sink symbol expression }
  | split {w : Workspace} {p : Partition} (numbered : Numbered w.symbols p.cold) :
      Change g w { w with draft := { w.draft with partition := p } }
  | drop {w : Workspace} : Change g w { w with draft := w.draft.dropInlined }
  /-- Types, shared code and inlet callers change, or the stage of all nodes. -/
  | shared {w : Workspace} {d : Draft} (nodes : d.nodes = w.draft.nodes) (partition : d.partition = w.draft.partition)
      (once : w.draft.shared.exports.Nodup → d.shared.exports.Nodup) : Change g w { w with draft := d }
  | stage {w : Workspace} (next : Stage) : Change g w { w with draft := w.draft.atStage next }

/-- Several changes, one after the other. -/
def Changes (g : Graph) : Workspace → Workspace → Prop := ReflTransGen (Change g)

instance (g : Graph) : IsPreorder Workspace (Changes g) where
  refl _ := .refl
  trans _ _ _ := .trans

/-- What every single change does, several do. -/
theorem Changes.minimal {g : Graph} {rel : Workspace → Workspace → Prop} [IsPreorder Workspace rel] {w v : Workspace}
    (changes : Changes g w v) (each : ∀ w v, Change g w v → rel w v) : rel w v :=
  reflTransGen_le_of_le each w v changes

section Works
variable {input : BuildInput} {w : Workspace}

theorem Changes.single {g : Graph} {w v : Workspace} (change : Change g w v) : Changes g w v := ReflTransGen.single change

theorem request_changes (request : SymbolRequest) (allowed : w.draft.Allows request) :
    Leaves (Changes input.graph) (Build.name request.give) w :=
  .name (fun _ given => .single (.request request allowed given))

theorem code_changes {id : String} {f : NodeDraft → NodeDraft} (ins : ∀ n, (f n).signalIns = n.signalIns)
    (outs : ∀ n, (f n).signalOuts = n.signalOuts) (plans : ∀ n, (f n).senderPlans = n.senderPlans) :
    Leaves (Changes input.graph) (Build.modifyNode id f) w :=
  .modifyDraft (.single (.code id ins outs plans))

theorem namePortlets_changes (id : String) : Leaves (Changes input.graph) (namePortlets input id) w := by
  refine .lift_bind (fun n _ => .bind (.forM (fun outlet _ w => ?_)) (fun _ w => .bind (.forM (fun inlet _ w => ?_))
    (fun _ w => .bind (.forM (fun outlet _ w => ?_)) (fun _ w => .forM (fun inlet _ w => ?_)))))
  · have gives : Ends (Build.name (fun s => s.attachPortlet .outs id outlet.id)) w
        (fun symbol after => after.symbols.at? (.portlet .outs id outlet.id) = some symbol) (fun _ => True) :=
      .name ((w.symbols.attachPortlet_yields .outs id outlet.id).mono (fun _ assigns => assigns.at?_eq) (fun _ _ => trivial))
    exact .bind_ends (request_changes (.attachPortlet .outs id outlet.id) trivial) gives
      (fun symbol w given => .modifyDraft (.single (.outlet id given)))
  · exact .discard (request_changes (.attachPortlet .rcvs id inlet.id) trivial)
  · exact .discard (request_changes (.attachListener id outlet) trivial)
  · exact .discard (request_changes (.attachCaller id inlet) trivial)

theorem wirePortlets_changes (id : String) : Leaves (Changes input.graph) (wirePortlets input id) w := by
  refine .lift_bind (fun n _ => .bind (.forM (fun inlet _ w => ?_)) (fun _ w => .forM (fun outlet _ w => ?_)))
  · exact .symbols_bind (.lift_bind (fun _ made => .modifyDraft (.single (.inlet id made))))
  · exact .symbols_bind (.lift_bind (fun _ made => .modifyDraft (.single (.plan id made))))

theorem nameType_changes (type : String) (i : Implementation) : Leaves (Changes input.graph) (nameType type i) w :=
  .bind (request_changes (.attachTypeTag type) trivial)
    (fun tag _ => .forM (fun name _ _ => .discard (request_changes (.attachGlobal tag name) trivial)))

theorem attachGlobals_changes (w : Workspace) (names : List (String × String)) :
    Changes input.graph w { w with symbols := (w.symbols.attachGlobals names).2 } := by
  induction names generalizing w with
  | nil => exact .refl
  | cons entry rest ih =>
    obtain ⟨tag, name⟩ := entry
    rw [Symbols.attachGlobals]
    cases result : w.symbols.attachGlobal tag name with
    | error e => exact .refl
    | ok named =>
      exact .head (.request (.attachGlobal tag name) trivial result) (ih { w with symbols := named.2 })

theorem collectShared_changes (ds : List Definition) : Leaves (Changes input.graph) (collectShared input ds) w := by
  refine .symbols_bind ?_
  show Leaves _ (modify _ >>= fun _ => liftM _) _
  exact .bind (attachGlobals_changes w _) (fun _ _ => .lift _)

theorem makeCore_changes (type : String) (i : Implementation) : Leaves (Changes input.graph) (makeCore input type i) w :=
  .symbols_bind (.lift_bind (fun _ _ => .modifyDraft (.single (.shared rfl rfl (fun once => once)))))

theorem splitGroups_changes (full signal : List String) : Leaves (Changes input.graph) (splitGroups input full signal) w := by
  refine .lift_bind (fun eligible _ => .bind (.mapM (fun entry _ w => ?_)) (fun _ _ => .pure _))
  exact .bind (request_changes (.attachColdGroup entry.2) trivial) (fun _ _ => .pure _)

/-- Fusing a node leaves the draft, stores loop code or inlines an expression. -/
theorem fuseNode_changes {symbols : Symbols} {p : Partition} {id : String} {d : Draft}
    (fused : fuseNode input symbols p w.draft id = .ok d) : Changes input.graph w { w with draft := d } := by
  have resolved : ∀ loop, Changes input.graph w { w with draft := w.draft.resolveLoop id loop } := fun _ =>
    .single (.code id (fun _ => rfl) (fun _ => rfl) (fun _ => rfl))
  have outcome : Yields (fuseNode input symbols p w.draft id) (fun d => Changes input.graph w { w with draft := d })
      (fun _ => True) := by
    unfold fuseNode
    refine Yields.bind (.any _) (fun n _ => Yields.bind (.any _) (fun i _ => ?_))
    show Yields (if _ then _ else _) _ _
    split
    · exact .refl
    · refine Yields.bind (.any _) (fun context _ => Yields.bind (.any _) (fun loop _ => ?_))
      dsimp only
      split
      next => exact resolved loop
      next expression made =>
        obtain ⟨sequence, _, isExpression⟩ := Option.bind_eq_some_iff.mp made
        refine Yields.bind ((Yields.self _).mono (fun _ stored => stored) (fun _ _ => trivial)) (fun m stored => ?_)
        split
        next sink symbol more _ values =>
          exact .single (.inline id sink (node_eq_ok_iff.mp stored) (values ▸ List.mem_cons_self) isExpression)
        next => exact resolved _
        next => exact resolved _
  exact outcome.of_eq_ok fused

theorem calls_of_callees {d : Draft} {id outlet callee : String} {m : NodeDraft} {sinks : List Endpoint}
    (stored : d.nodes.get? id = some m)
    (member : callee ∈ callees d.partition ((m.senderPlans.get? outlet).getD []) sinks) : d.Calls callee := by
  rcases mem_callees_iff.mp member with isPlanned | ⟨sink, _, runs⟩
  · cases planned : m.senderPlans.get? outlet with
    | none => simp [planned] at isPlanned
    | some plan =>
      rw [planned] at isPlanned
      exact .inl ⟨id, m, outlet, plan, stored, planned, isPlanned⟩
  · obtain ⟨c, found, same⟩ := Option.map_eq_some_iff.mp runs
    exact .inr ⟨c, List.mem_reverse.mp (List.mem_of_find?_eq_some found), same⟩

theorem nameSender_changes (id outlet : String) {called : List String} (calls : ∀ callee ∈ called, w.draft.Calls callee) :
    Leaves (Changes input.graph) (nameSender id outlet called) w := by
  unfold nameSender
  split
  next =>
    exact .bind (request_changes (.aliasPortlet .snds id outlet Engine.nullReceiver) ⟨rfl, .inl rfl⟩) (fun _ _ => .pure _)
  next callee =>
    exact .bind (request_changes (.aliasPortlet .snds id outlet callee) ⟨rfl, .inr (calls callee List.mem_cons_self)⟩)
      (fun _ _ => .pure _)
  next => exact .bind (request_changes (.attachPortlet .snds id outlet) trivial) (fun _ _ => .pure _)

theorem makeSenders_changes (id : String) : Leaves (Changes input.graph) (makeSenders input id) w := by
  refine .lift_bind (fun n _ => .forM (fun outlet _ w => .draft_bind (.lift_bind (fun m found => .bind ?_
    (fun _ _ => code_changes (fun _ => rfl) (fun _ => rfl) (fun _ => rfl))))))
  exact nameSender_changes id outlet.id (fun callee => calls_of_callees (node_eq_ok_iff.mp found))

theorem makeReceivers_changes (id : String) : Leaves (Changes input.graph) (makeReceivers input id) w := by
  refine .symbols_bind (.lift_bind (fun symbols _ => ?_))
  show Leaves _ (if _ then _ else _) _
  split
  · exact .draft_bind (.lift_bind (fun _ _ => code_changes (fun _ => rfl) (fun _ => rfl) (fun _ => rfl)))
  · exact .pure _

theorem makeState_changes (id type : String) (members : List StateMember) :
    Leaves (Changes input.graph) (makeState id type members) w := by
  unfold makeState
  split
  · exact .pure _
  · refine .symbols_bind (.lift_bind (fun tag _ => .bind (request_changes (.attachGlobal tag "State") trivial)
      (fun className w => .draft_bind (.lift_bind (fun d declared => .bind (.modifyDraft ?_)
        (fun _ w => .symbols_bind (.lift_bind (fun _ _ => .pure _))))))))
    unfold declareState at declared
    dsimp only at declared
    split at declared
    · cases declared
      exact .single (.shared rfl rfl (fun once => once))
    · split at declared
      · cases declared
        exact .refl
      · cases declared

theorem finalizeNode_changes (id : String) : Leaves (Changes input.graph) (finalizeNode input id) w := by
  refine .lift_bind (fun node _ => .lift_bind (fun i _ => .draft_bind (.symbols_bind (.lift_bind (fun context _ =>
    .lift_bind (fun m _ => .lift_bind (fun code _ => .bind (makeState_changes id _ _) (fun _ _ => ?_))))))))
  exact code_changes (fun _ => rfl) (fun _ => rfl) (fun _ => rfl)

theorem pass_changes {expected next : Stage} {work : Build Unit} (changes : Leaves (Changes input.graph) work w) :
    Leaves (Changes input.graph) (Build.pass expected next work) w :=
  .draft_bind (.lift_bind (fun _ _ => .bind changes (fun _ _ => .modifyDraft (.single (.stage next)))))

end Works

/-- Every step is a sequence of changes, also if it fails. -/
theorem Step.changes (step : Step) (input : BuildInput) (w : Workspace) :
    Leaves (Changes input.graph) (step.work input) w := by
  cases step with
  | resolvePortlets =>
    refine pass_changes (.nodeIds_bind (.bind (.forM (fun id _ w => ?_)) (fun _ w => .nodeIds_bind
      (.forM (fun id _ w => ?_)))))
    · exact namePortlets_changes id
    · exact wirePortlets_changes id
  | collectDependencies =>
    refine pass_changes (.nodeIds_bind (.lift_bind (fun types _ => .bind (.forM (fun entry _ w => ?_))
      (fun _ w => .bind_ends (collectShared_changes _) ((collectShared_ends _).mono (fun _ _ post => post.2.2.1)
        (fun _ _ => trivial)) (fun _ w once => .bind ?_ (fun _ w => .forM (fun entry _ w => ?_)))))))
    · exact nameType_changes entry.1 entry.2
    · exact .modifyDraft (.single (.shared rfl rfl (fun _ => once)))
    · exact makeCore_changes entry.1 entry.2
  | partitionDsp =>
    refine pass_changes (.draft_bind (.lift_bind (fun signal _ => ?_)))
    refine .bind_ends (splitGroups_changes _ signal) ((splitGroups_ends _ signal).mono (fun _ _ post => post)
      (fun _ _ => trivial)) (fun p w split => ?_)
    obtain ⟨_, _, numbered, _⟩ := split
    refine .bind (.modifyDraft (.single (.split numbered))) (fun _ w => .bind (.forM (fun id _ w => ?_))
      (fun _ w => .modifyDraft (.single .drop)))
    exact .symbols_bind (.draft_bind (.lift_bind (fun d fused => .modifyDraft (fuseNode_changes fused))))
  | synthesizeMessages =>
    refine pass_changes (.nodeIds_bind (.bind (.forM (fun id _ w => ?_)) (fun _ w => .nodeIds_bind
      (.bind (.forM (fun id _ w => ?_)) (fun _ w => .symbols_bind (.draft_bind (.lift_bind (fun _ _ => ?_))))))))
    · exact makeSenders_changes id
    · exact makeReceivers_changes id
    · exact .modifyDraft (.single (.shared rfl rfl (fun once => once)))
  | finalizeNodeCode => exact pass_changes (.nodeIds_bind (.forM (fun id _ w => finalizeNode_changes id)))

theorem finish_changes (input : BuildInput) (w : Workspace) : Leaves (Changes input.graph) (finish input) w := by
  refine .bind (Step.finalizeNodeCode.changes input w) (fun _ w => .draft_bind (.symbols_bind ?_))
  show Leaves _ (if _ then _ else _) w
  split
  · exact .pure _
  · exact Std.Refl.refl w

end Draft

/-- All passes together are a sequence of changes. -/
theorem Passes.changes {input : BuildInput} {full : List String} (passes : Passes input full) :
    Draft.Changes input.graph ⟨passes.allocated, passes.started⟩ passes.finished := by
  have resolves := (Draft.Step.resolvePortlets.changes input _).ends.of_run passes.resolves
  have collects := (Draft.Step.collectDependencies.changes input _).ends.of_run passes.collects
  have divides := (Draft.Step.partitionDsp.changes input _).ends.of_run passes.divides
  have speaks := (Draft.Step.synthesizeMessages.changes input _).ends.of_run passes.speaks
  have finishes := (Draft.finish_changes input _).ends.of_run passes.finishes
  exact resolves.trans (collects.trans (divides.trans (speaks.trans finishes)))

end DspPatch
