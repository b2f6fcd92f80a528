import DspPatch.Draft.Certificate
import DspPatch.Program
import DspPatch.Proofs.Draft.ExactPartition

/-!
The stages of a draft. A step of the work on it begins only if all nodes are at the stage it expects, and it puts them at
the next one only when everything else is done. So a step that comes at another stage is refused before it changes
anything, a step that fails halfway leaves every node at its stage, and in whatever order steps are called, those that
succeed follow each other as they should.
-/
namespace DspPatch
namespace Draft

/-- The stage of every node, in order. -/
def stages (d : Draft) : Table Stage := d.nodes.map NodeDraft.stage

theorem stages_modifyNode (d : Draft) (id : String) {f : NodeDraft → NodeDraft} (same : ∀ n, (f n).stage = n.stage) :
    (d.modifyNode id f).stages = d.stages := by
  apply Table.ext
  simp only [stages, modifyNode, Table.map, Table.modify, List.map_map]
  refine List.map_congr_left (fun entry _ => ?_)
  by_cases here : entry.1 = id <;> simp [here, same]

theorem stages_atStage (d : Draft) (stage : Stage) : (d.atStage stage).stages = d.stages.map (fun _ => stage) := by
  apply Table.ext
  simp only [stages, atStage, Table.map, List.map_map]
  rfl

theorem get?_stages (d : Draft) (id : String) : d.stages.get? id = (d.nodes.get? id).map NodeDraft.stage :=
  Table.get?_map _ _ _

/-- A draft that is not at a stage is refused with a node that is at another. -/
theorem expectStage_yields (d : Draft) (expected : Stage) :
    Yields (d.expectStage expected) (fun _ => ∀ n ∈ d.nodes.values, n.stage = expected)
      (fun e => ∃ id found, e = .passOrder id expected found ∧ d.stages.get? id = some found ∧ found ≠ expected) := by
  have checked : Yields (d.expectStage expected) (fun _ => ∀ entry ∈ d.nodes.entries, entry.2.stage = expected)
      (fun e => ∃ id found, e = .passOrder id expected found ∧ d.stages.get? id = some found ∧ found ≠ expected) := by
    refine Yields.forM ?_
    rintro ⟨id, n⟩ member
    dsimp only
    split
    next reached => exact reached
    next other =>
      refine ⟨id, n.stage, rfl, ?_, other⟩
      rw [get?_stages, Table.get?_eq_some_iff.mpr member]
      rfl
  exact checked.mono (fun _ all => List.forall_mem_map.mpr all) (fun _ bad => bad)

end Draft

/-- Every node is at the stage where it was. -/
def SameStages (before after : Workspace) : Prop := after.draft.stages = before.draft.stages

instance : IsPreorder Workspace SameStages where
  refl _ := rfl
  trans _ _ _ first second := Eq.trans second first

namespace Draft
open Build
variable {input : BuildInput} {w : Workspace}

theorem modifyNode_leaves {id : String} {f : NodeDraft → NodeDraft} (same : ∀ n, (f n).stage = n.stage) :
    Leaves SameStages (Build.modifyNode id f) w :=
  .modifyDraft (stages_modifyNode w.draft id same)

theorem name_leaves {give : Symbols → Except CompileError (String × Symbols)} : Leaves SameStages (Build.name give) w :=
  .name (fun _ _ => rfl)

theorem namePortlets_leaves (id : String) : Leaves SameStages (namePortlets input id) w := by
  refine .lift_bind (fun n _ => .bind (.forM (fun outlet _ w => ?_)) (fun _ w => .bind (.forM (fun inlet _ w => ?_))
    (fun _ w => .bind (.forM (fun outlet _ w => ?_)) (fun _ w => .forM (fun inlet _ w => ?_)))))
  · exact .bind name_leaves (fun _ _ => modifyNode_leaves (fun _ => rfl))
  · exact .discard name_leaves
  · exact .discard name_leaves
  · exact .discard name_leaves

theorem wirePortlets_leaves (id : String) : Leaves SameStages (wirePortlets input id) w := by
  refine .lift_bind (fun n _ => .bind (.forM (fun inlet _ w => ?_)) (fun _ w => .forM (fun outlet _ w => ?_)))
  · exact .symbols_bind (.lift_bind (fun _ _ => modifyNode_leaves (fun _ => rfl)))
  · exact .symbols_bind (.lift_bind (fun _ _ => modifyNode_leaves (fun _ => rfl)))

theorem nameType_leaves (type : String) (i : Implementation) : Leaves SameStages (nameType type i) w :=
  .bind name_leaves (fun _ _ => .forM (fun _ _ _ => .discard name_leaves))

theorem collectShared_leaves (ds : List Definition) : Leaves SameStages (collectShared input ds) w := by
  refine .symbols_bind ?_
  show Leaves _ (modify _ >>= fun _ => liftM _) _
  exact .bind rfl (fun _ _ => .lift _)

theorem makeCore_leaves (type : String) (i : Implementation) : Leaves SameStages (makeCore input type i) w :=
  .symbols_bind (.lift_bind (fun _ _ => .modifyDraft rfl))

theorem splitGroups_leaves (full signal : List String) : Leaves SameStages (splitGroups input full signal) w := by
  refine .lift_bind (fun eligible _ => .bind (.mapM (fun entry _ w => ?_)) (fun _ _ => .pure _))
  exact .bind name_leaves (fun _ _ => .pure _)

theorem fuseNode_stages (symbols : Symbols) (p : Partition) (d : Draft) (id : String) :
    Yields (fuseNode input symbols p d id) (fun after => after.stages = d.stages) (fun _ => True) := by
  have resolved : ∀ loop, (d.resolveLoop id loop).stages = d.stages := fun loop => stages_modifyNode d id (fun _ => rfl)
  have inlined : ∀ sink symbol expression, (d.inlineInto id sink symbol expression).stages = d.stages := by
    intro sink symbol expression
    refine (stages_modifyNode _ id ?_).trans (stages_modifyNode d sink ?_)
    · exact fun _ => rfl
    · exact fun _ => rfl
  unfold fuseNode
  refine Yields.bind (.any _) (fun n _ => Yields.bind (.any _) (fun i _ => ?_))
  show Yields (if _ then _ else _) _ _
  split
  · rfl
  · refine Yields.bind (.any _) (fun context _ => Yields.bind (.any _) (fun loop _ => ?_))
    dsimp only
    split
    · exact resolved loop
    · refine Yields.bind (.any _) (fun m _ => ?_)
      split
      · exact inlined _ _ _
      · exact resolved _
      · exact resolved _

theorem makeSenders_leaves (id : String) : Leaves SameStages (makeSenders input id) w := by
  refine .lift_bind (fun n _ => .forM (fun outlet _ w => .draft_bind (.lift_bind (fun m _ => .bind ?_
    (fun _ _ => modifyNode_leaves (fun _ => rfl))))))
  unfold nameSender
  split <;> exact .bind name_leaves (fun _ _ => .pure _)

theorem makeReceivers_leaves (id : String) : Leaves SameStages (makeReceivers input id) w := by
  refine .symbols_bind (.lift_bind (fun symbols _ => ?_))
  show Leaves _ (if _ then _ else _) _
  split
  · exact .draft_bind (.lift_bind (fun _ _ => modifyNode_leaves (fun _ => rfl)))
  · exact .pure _

theorem declareState_stages (d : Draft) (id type className : String) (members : List StateMember) :
    Yields (declareState d id type className members) (fun after => after.stages = d.stages) (fun _ => True) := by
  unfold declareState
  dsimp only
  split
  · rfl
  · split
    · rfl
    · trivial

theorem makeState_leaves (id type : String) (members : List StateMember) :
    Leaves SameStages (makeState id type members) w := by
  unfold makeState
  split
  · exact .pure _
  · refine .symbols_bind (.lift_bind (fun tag _ => .bind name_leaves (fun className w => .draft_bind (.lift_bind
      (fun d declared => .bind ?_ (fun _ w => .symbols_bind (.lift_bind (fun _ _ => .pure _))))))))
    exact .modifyDraft ((declareState_stages _ id type className members).of_eq_ok declared)

theorem finalizeNode_leaves (id : String) : Leaves SameStages (finalizeNode input id) w := by
  refine .lift_bind (fun node _ => .lift_bind (fun i _ => .draft_bind (.symbols_bind (.lift_bind (fun context _ =>
    .lift_bind (fun m _ => .lift_bind (fun code _ => .bind (makeState_leaves id _ _) (fun _ _ => ?_))))))))
  exact modifyNode_leaves (fun _ => rfl)

/-- A step of the work on a draft. -/
inductive Step where
  | resolvePortlets
  | collectDependencies
  | partitionDsp
  | synthesizeMessages
  | finalizeNodeCode
deriving DecidableEq, Repr

namespace Step

/-- All steps in the order in which they have to be made. -/
def all : List Step := [resolvePortlets, collectDependencies, partitionDsp, synthesizeMessages, finalizeNodeCode]

/-- The stage at which a step begins. -/
def expected : Step → Stage
  | resolvePortlets => .untouched
  | collectDependencies => .portletsResolved
  | partitionDsp => .dependenciesCollected
  | synthesizeMessages => .dspPartitioned
  | finalizeNodeCode => .messagesSynthesized

/-- The stage to which a step leads. -/
def next : Step → Stage
  | resolvePortlets => .portletsResolved
  | collectDependencies => .dependenciesCollected
  | partitionDsp => .dspPartitioned
  | synthesizeMessages => .messagesSynthesized
  | finalizeNodeCode => .finalized

def work : Step → BuildInput → Build Unit
  | resolvePortlets => Draft.resolvePortlets
  | collectDependencies => Draft.collectDependencies
  | partitionDsp => Draft.partitionDsp
  | synthesizeMessages => Draft.synthesizeMessages
  | finalizeNodeCode => Draft.finalizeNodeCode

/-- The steps that lead to a stage. -/
def upTo (stage : Stage) : List Step := all.take stage.ctorIdx

theorem upTo_next (step : Step) : upTo step.next = upTo step.expected ++ [step] := by
  cases step <;> rfl

/-- What a step can come to. -/
inductive Outcome (step : Step) (w : Workspace) : Except CompileError Unit × Workspace → Prop where
  | refused {id : String} {found : Stage} (stored : w.draft.stages.get? id = some found) (other : found ≠ step.expected) :
      Outcome step w (.error (.passOrder id step.expected found), w)
  | failed {e : CompileError} {after : Workspace} (staged : ∀ n ∈ w.draft.nodes.values, n.stage = step.expected)
      (same : SameStages w after) : Outcome step w (.error e, after)
  | done {after : Workspace} (staged : ∀ n ∈ w.draft.nodes.values, n.stage = step.expected)
      (moved : after.draft.stages = w.draft.stages.map (fun _ => step.next)) : Outcome step w (.ok (), after)

theorem outcome_pass {step : Step} {work : Build Unit} (keeps : ∀ w, Leaves SameStages work w) (w : Workspace) :
    Outcome step w ((Build.pass step.expected step.next work).run.run w) := by
  have opened : (Build.pass step.expected step.next work).run.run w =
      (liftM (w.draft.expectStage step.expected) >>= fun _ => work >>= fun _ =>
        Build.modifyDraft (fun d => d.atStage step.next) : Build Unit).run.run w := rfl
  rw [opened]
  cases checked : w.draft.expectStage step.expected with
  | error e =>
    obtain ⟨id, found, rfl, stored, other⟩ := (expectStage_yields _ _).of_eq_error checked
    exact .refused stored other
  | ok =>
    have staged := (expectStage_yields _ _).of_eq_ok checked
    have kept := keeps w
    unfold Leaves at kept
    show Outcome step w ((work >>= fun _ => Build.modifyDraft (fun d => d.atStage step.next) : Build Unit).run.run w)
    rw [ExceptT.run_bind, StateT.run_bind]
    rcases worked : work.run.run w with ⟨e | _, after⟩
    · rw [worked] at kept
      exact .failed staged kept
    · rw [worked] at kept
      refine .done staged ?_
      show (after.draft.atStage step.next).stages = _
      rw [stages_atStage, kept]

/-- Every step is refused at another stage, fails without moving on, or moves all nodes on. -/
theorem outcome (step : Step) (input : BuildInput) (w : Workspace) : Outcome step w ((step.work input).run.run w) := by
  cases step with
  | resolvePortlets =>
    refine outcome_pass (fun w => .nodeIds_bind (.bind (.forM (fun id _ w => ?_)) (fun _ w => .nodeIds_bind
      (.forM (fun id _ w => ?_))))) w
    · exact namePortlets_leaves id
    · exact wirePortlets_leaves id
  | collectDependencies =>
    refine outcome_pass (fun w => .nodeIds_bind (.lift_bind (fun types _ => .bind (.forM (fun entry _ w => ?_))
      (fun _ w => .bind ?_ (fun _ w => .bind ?_ (fun _ w => .forM (fun entry _ w => ?_))))))) w
    · exact nameType_leaves entry.1 entry.2
    · exact collectShared_leaves _
    · exact .modifyDraft rfl
    · exact makeCore_leaves entry.1 entry.2
  | partitionDsp =>
    refine outcome_pass (fun w => .draft_bind (.lift_bind (fun signal _ => .bind ?_ (fun p w => .bind ?_
      (fun _ w => .bind (.forM (fun id _ w => ?_)) (fun _ w => ?_)))))) w
    · exact splitGroups_leaves _ signal
    · exact .modifyDraft rfl
    · refine .symbols_bind (.draft_bind (.lift_bind (fun d fused => ?_)))
      exact .modifyDraft ((fuseNode_stages _ p _ id).of_eq_ok fused)
    · exact .modifyDraft rfl
  | synthesizeMessages =>
    refine outcome_pass (fun w => .nodeIds_bind (.bind (.forM (fun id _ w => ?_)) (fun _ w => .nodeIds_bind
      (.bind (.forM (fun id _ w => ?_)) (fun _ w => .symbols_bind (.draft_bind (.lift_bind (fun _ _ => ?_)))))))) w
    · exact makeSenders_leaves id
    · exact makeReceivers_leaves id
    · exact .modifyDraft rfl
  | finalizeNodeCode =>
    exact outcome_pass (fun w => .nodeIds_bind (.forM (fun id _ w => finalizeNode_leaves id))) w

end Step

/-- A step that is called with an input. -/
structure Call where
  step : Step
  input : BuildInput

def Call.run (call : Call) (w : Workspace) : Except CompileError Unit × Workspace := (call.step.work call.input).run.run w

/-- Make all calls, one after the other, also after one that fails: the steps that succeed, and what is left. -/
def runCalls (w : Workspace) : List Call → List Step × Workspace
  | [] => ([], w)
  | call :: rest =>
    match call.run w with
    | (.error _, after) => runCalls after rest
    | (.ok (), after) => (call.step :: (runCalls after rest).1, (runCalls after rest).2)

/-- There are nodes, and all of them are at the stage. -/
structure AllAt (stage : Stage) (d : Draft) : Prop where
  nonempty : d.nodes.values ≠ []
  staged : ∀ n ∈ d.nodes.values, n.stage = stage

theorem allAt_iff_stages {stage : Stage} {d : Draft} :
    d.AllAt stage ↔ d.stages.values ≠ [] ∧ ∀ s ∈ d.stages.values, s = stage := by
  have values : d.stages.values = d.nodes.values.map NodeDraft.stage := by
    simp only [stages, Table.values, Table.map, List.map_map, Function.comp_def]
  rw [values, List.forall_mem_map, ne_eq, List.map_eq_nil_iff]
  exact ⟨fun all => ⟨all.nonempty, all.staged⟩, fun all => ⟨all.1, all.2⟩⟩

namespace AllAt
variable {stage : Stage} {call : Call} {after : Workspace}

theorem of_sameStages (all : w.draft.AllAt stage) (same : SameStages w after) : after.draft.AllAt stage := by
  rw [allAt_iff_stages, same]
  exact allAt_iff_stages.mp all

theorem of_moved {next : Stage} (all : w.draft.AllAt stage)
    (moved : after.draft.stages = w.draft.stages.map (fun _ => next)) : after.draft.AllAt next := by
  have values : (w.draft.stages.map (fun _ => next)).values = w.draft.stages.values.map (fun _ => next) := by
    simp only [Table.values, Table.map, List.map_map, Function.comp_def]
  rw [allAt_iff_stages, moved, values, List.forall_mem_map, ne_eq, List.map_eq_nil_iff]
  exact ⟨(allAt_iff_stages.mp all).1, fun _ _ => rfl⟩

theorem unique {other : Stage} (all : w.draft.AllAt stage) (staged : ∀ n ∈ w.draft.nodes.values, n.stage = other) :
    other = stage := by
  obtain ⟨n, member⟩ := List.exists_mem_of_ne_nil _ all.nonempty
  exact (staged n member).symm.trans (all.staged n member)

/-- A call at another stage than the expected one is refused and changes nothing. -/
theorem refused (all : w.draft.AllAt stage) (other : call.step.expected ≠ stage) :
    ∃ id ∈ w.draft.nodes.keys, call.run w = (.error (.passOrder id call.step.expected stage), w) := by
  have outcome := call.step.outcome call.input w
  unfold Call.run
  generalize (call.step.work call.input).run.run w = result at outcome
  cases outcome with
  | @refused id found stored _ =>
    rw [get?_stages, Option.map_eq_some_iff] at stored
    obtain ⟨n, isNode, rfl⟩ := stored
    rw [all.staged n (Table.mem_values_iff.mpr ⟨id, isNode⟩)]
    exact ⟨id, Table.mem_keys_of_get? isNode, rfl⟩
  | failed staged _ => exact absurd (all.unique staged) other
  | done staged _ => exact absurd (all.unique staged) other

end AllAt

/-- A call that fails leaves every node at its stage. -/
theorem Call.sameStages {call : Call} {e : CompileError} {after : Workspace} (failed : call.run w = (.error e, after)) :
    SameStages w after := by
  have outcome := call.step.outcome call.input w
  unfold Call.run at failed
  rw [failed] at outcome
  cases outcome with
  | refused => rfl
  | failed _ same => exact same

/-- A call that succeeds moves all nodes from the stage that it expects to the next one. -/
theorem AllAt.done {stage : Stage} {call : Call} {after : Workspace} (all : w.draft.AllAt stage)
    (ran : call.run w = (.ok (), after)) : call.step.expected = stage ∧ after.draft.AllAt call.step.next := by
  have outcome := call.step.outcome call.input w
  unfold Call.run at ran
  rw [ran] at outcome
  cases outcome with
  | done staged moved => exact ⟨all.unique staged, all.of_moved moved⟩

/-- Whatever is called, the steps that succeed lead from the stage at the start to the one at the end. -/
theorem AllAt.runCalls {stage : Stage} (all : w.draft.AllAt stage) (calls : List Call) :
    ∃ last, (Draft.runCalls w calls).2.draft.AllAt last ∧
      Step.upTo stage ++ (Draft.runCalls w calls).1 = Step.upTo last := by
  induction calls generalizing w stage with
  | nil => exact ⟨stage, all, List.append_nil _⟩
  | cons call rest ih =>
    rw [Draft.runCalls]
    rcases ran : call.run w with ⟨e | _, after⟩
    · exact ih (all.of_sameStages (call.sameStages ran))
    · obtain ⟨rfl, moved⟩ := all.done ran
      obtain ⟨last, allLast, steps⟩ := ih moved
      refine ⟨last, allLast, ?_⟩
      rw [← steps, Step.upTo_next, List.append_assoc]
      rfl

/-- What holds after calls of which `steps` have succeeded: the nodes are all at one stage, and the steps are those that
    lead to it. A call that fails leaves the stages, one at another stage leaves everything, and the program is made only
    at the end. -/
structure InOrder (stage : Stage) (steps : List Step) (w : Workspace) : Prop where
  all : w.draft.AllAt stage
  steps_eq : steps = Step.upTo stage
  refused : ∀ call : Call, call.step.expected ≠ stage →
    ∃ id ∈ w.draft.nodes.keys, call.run w = (.error (.passOrder id call.step.expected stage), w)
  failed : ∀ (call : Call) e after, call.run w = (.error e, after) → after.draft.stages = w.draft.stages
  done : ∀ (call : Call) after, call.run w = (.ok (), after) →
    call.step.expected = stage ∧ after.draft.AllAt call.step.next
  assembled : ∀ program, w.draft.program w.symbols = .ok program → steps = Step.all

/-- A draft that can be assembled is finalized. -/
theorem AllAt.eq_finalized {stage : Stage} (all : w.draft.AllAt stage) {program : Sequence}
    (assembled : w.draft.program w.symbols = .ok program) : stage = .finalized := by
  obtain ⟨checked, _⟩ := then_eq_ok_iff.mp assembled
  exact (all.unique (expectStage_eq_ok_iff.mp checked)).symm

theorem AllAt.inOrder {stage : Stage} (all : w.draft.AllAt stage) : InOrder stage (Step.upTo stage) w := by
  refine ⟨all, rfl, fun _ => all.refused, fun call _ _ => call.sameStages, fun _ _ => all.done, fun program made => ?_⟩
  rw [all.eq_finalized made]
  rfl

theorem allAt_start {g : Graph} {traversal : List String} {d : Draft} (nonempty : traversal ≠ [])
    (started : Started g traversal d) : d.AllAt .untouched := by
  refine ⟨fun empty => ?_, fun n member => ?_⟩
  · obtain ⟨id, listed⟩ := List.exists_mem_of_ne_nil _ nonempty
    obtain ⟨n, stored⟩ := Table.mem_keys_iff.mp ((started.keys id).mpr listed)
    have member := Table.mem_values_iff.mpr ⟨id, stored⟩
    rw [empty] at member
    cases member
  · obtain ⟨id, stored⟩ := Table.mem_values_iff.mp member
    obtain ⟨_, _, rfl⟩ := started.nodes id n stored
    rfl

/-- In whatever order the steps are called, those that succeed are the first ones, each once and in order. -/
theorem calls_in_order {g : Graph} {traversal : List String} (nonempty : traversal ≠ [])
    (present : ∀ id ∈ traversal, ∃ n, g.get? id = some n) (symbols : Symbols) :
    ∃ d, Draft.start g traversal = .ok d ∧ ∀ calls, ∃ stage,
      InOrder stage (runCalls ⟨symbols, d⟩ calls).1 (runCalls ⟨symbols, d⟩ calls).2 := by
  have outcome : Yields (Draft.start g traversal) (Started g traversal) (fun _ => False) := by
    refine (start_yields g traversal).mono (fun _ started => started) ?_
    rintro _ ⟨id, member, missing⟩
    obtain ⟨n, found⟩ := present id member
    cases missing.symm.trans found
  obtain ⟨d, result, started⟩ := outcome.exists_ok
  refine ⟨d, result, fun calls => ?_⟩
  have untouched : (Workspace.mk symbols d).draft.AllAt .untouched := allAt_start nonempty started
  obtain ⟨stage, all, steps⟩ := untouched.runCalls calls
  refine ⟨stage, ?_⟩
  rw [show (runCalls ⟨symbols, d⟩ calls).1 = Step.upTo stage from steps]
  exact all.inOrder

/-- Calls for the sample patch: the third one knows no node types, and the first and the fifth come at the wrong time. -/
def sampleCalls : List Call := [
  ⟨.partitionDsp, sampleInput⟩, ⟨.resolvePortlets, sampleInput⟩,
  ⟨.collectDependencies, { sampleInput with registry := .empty }⟩, ⟨.collectDependencies, sampleInput⟩,
  ⟨.resolvePortlets, sampleInput⟩, ⟨.partitionDsp, sampleInput⟩]

/-- Of the calls for the sample patch the second, the fourth and the last succeed. -/
theorem calls_in_order_sample : sampleFull ≠ [] ∧ (∀ id ∈ sampleFull, ∃ n, sampleInput.graph.get? id = some n) ∧
    ∃ d, Draft.start sampleInput.graph sampleFull = .ok d ∧
      (runCalls ⟨sampleStart.symbols, d⟩ sampleCalls).1 = [.resolvePortlets, .collectDependencies, .partitionDsp] ∧
      ∃ stage, InOrder stage (runCalls ⟨sampleStart.symbols, d⟩ sampleCalls).1
        (runCalls ⟨sampleStart.symbols, d⟩ sampleCalls).2 := by
  have present : ∀ id ∈ sampleFull, ∃ n, sampleInput.graph.get? id = some n := by
    simp only [← Option.isSome_iff_exists]
    decide +kernel
  have steps : (Draft.start sampleInput.graph sampleFull).map
      (fun d => (runCalls ⟨sampleStart.symbols, d⟩ sampleCalls).1) =
        .ok [.resolvePortlets, .collectDependencies, .partitionDsp] := by
    decide +kernel
  obtain ⟨d, started, inOrder⟩ := calls_in_order (by decide) present sampleStart.symbols
  rw [started] at steps
  exact ⟨by decide, present, d, started, Except.ok.inj steps, inOrder sampleCalls⟩

end Draft
end DspPatch
