import DspPatch.Graph.Trim
import DspPatch.Proofs.Draft.Fusion

/-!
The partition is exact. Every node that some pulling node depends on is in the hot group, in one cold group, or inlined,
and nothing else is. The cold groups are the components of the eligible nodes; no signal flows into them, and fusion never
takes out a node whose output is used outside its group.
-/
namespace DspPatch

namespace Draft
open Build Relation
variable {g : Graph} {r : Registry} {full order firsts : List String} {p : Partition}

/-- A node stands in one group only. -/
theorem SplitOf.group_unique (split : SplitOf g r full order firsts p) (run : g.RunOrder order) {a b : Group}
    (aListed : a ∈ p.groups) (bListed : b ∈ p.groups) {v : String} (inA : v ∈ a.traversal) (inB : v ∈ b.traversal) :
    a = b := by
  have apart := (List.nodup_flatMap.mp (split.nodup_members run)).2
  by_contra different
  have symmetric : Std.Symm (Function.onFun List.Disjoint Group.traversal) := ⟨fun _ _ away _ inB inA => away inA inB⟩
  exact apart.forall aListed bListed different inA inB

/-- The parts that a partition consists of, before and after the nodes `inlined` were taken out. -/
structure ExactPartition (g : Graph) (r : Registry) (full inlined : List String) (before after : Partition) : Prop where
  /-- The groups and the inlined nodes together hold exactly the nodes that pulling nodes depend on, each once. -/
  covers : ∀ v, v ∈ after.members ++ inlined ↔ g.Pulled v
  once : (after.members ++ inlined).Nodup
  inOrder : ∀ group ∈ after.groups, group.traversal.Sublist full
  pullingHot : ∀ v n, g.get? v = some n → n.isPullingSignal = true → v ∈ after.hot.traversal ∧ v ∉ inlined
  /-- Fusion takes out inlined nodes and changes nothing else. -/
  fused : after = before.without inlined
  numbered : before.cold.map ColdGroup.id = List.range before.cold.length
  /-- The groups are numbered by their first members. -/
  firstMembers : (before.cold.filterMap (fun c => c.group.traversal.head?)).Sublist full
  components : ∀ c ∈ before.cold, ∃ first ∈ c.group.traversal, ∀ v,
    v ∈ c.group.traversal ↔ Cold.Together g (Cold.Eligible g r) first v
  allEligible : ∀ v, Cold.Eligible g r v → ∃ c ∈ before.cold, v ∈ c.group.traversal
  sourcesInside : ∀ c ∈ before.cold, ∀ v ∈ c.group.traversal, ∀ u, g.Feeds .signal u v → u ∈ c.group.traversal
  leaving : ∀ c ∈ before.cold, ∀ k, k ∈ c.sinkConnections ↔
    g.Connects .signal k ∧ k.source.node ∈ c.group.traversal ∧ k.sink.node ∉ c.group.traversal
  landsHot : ∀ c ∈ before.cold, ∀ k ∈ c.sinkConnections, ∀ d ∈ before.cold, k.sink.node ∉ d.group.traversal
  outNodes : ∀ c ∈ before.cold, c.group.outNodes ≠ [] ∧
    ∀ v, v ∈ c.group.outNodes ↔ ∃ k ∈ c.sinkConnections, k.source.node = v
  outputsRemain : ∀ c ∈ after.cold, ∀ v ∈ c.group.outNodes, v ∈ c.group.traversal

theorem SplitOf.heads (split : SplitOf g r full order firsts p) :
    p.cold.filterMap (fun c => c.group.traversal.head?) = firsts := by
  have related := split.cold
  generalize p.cold = cold at related
  clear split
  induction related with
  | nil => rfl
  | cons first _ ih => rw [List.filterMap_cons, first.head, ih]

/-- A fused node stands in the group of its sink, and its output is used there only. -/
theorem Fusible.not_out (split : SplitOf g r full order firsts p) (run : g.RunOrder order) {id target : String}
    {outlets : List String} (fusible : Fusible g p id outlets target) {group : Group} (listed : group ∈ p.groups)
    (member : id ∈ group.traversal) : id ∉ group.outNodes := by
  obtain ⟨_, _, _, own, _, _, _, _, ownListed, before, unused⟩ := fusible
  rw [split.group_unique run listed ownListed member (before.subset (by simp))]
  exact unused

namespace Partitioned
variable {input : BuildInput} {w : Workspace}

theorem inlined_mem (partitioned : Partitioned input full order firsts p w) {v : String}
    (inlined : v ∈ w.draft.inlinedIds) : v ∈ p.members := by
  obtain ⟨_, _, _, _, _, _, group, _, _, _, _, listed, before, _⟩ := partitioned.inlined v inlined
  exact List.mem_flatMap.mpr ⟨group, listed, before.subset (by simp)⟩

theorem out_not_inlined (partitioned : Partitioned input full order firsts p w) (run : input.graph.RunOrder order)
    {group : Group} (listed : group ∈ p.groups) {v : String} (member : v ∈ group.traversal)
    (out : v ∈ group.outNodes) : v ∉ w.draft.inlinedIds := by
  intro inlined
  obtain ⟨_, _, _, fusible⟩ := partitioned.inlined v inlined
  exact fusible.not_out partitioned.split run listed member out

theorem mem_members_iff (partitioned : Partitioned input full order firsts p w) (v : String) :
    v ∈ w.draft.partition.members ↔ v ∈ p.members ∧ v ∉ w.draft.inlinedIds := by
  rw [partitioned.partition, Partition.members_without, List.mem_filter, Bool.not_eq_true', List.contains_eq_mem,
    decide_eq_false_iff_not]

theorem pulling_hot (partitioned : Partitioned input full order firsts p w) (runnable : input.graph.Runnable full)
    (run : input.graph.RunOrder order) {v : String} {n : Node} (found : input.graph.get? v = some n)
    (pulls : n.isPullingSignal = true) : v ∈ w.draft.partition.hot.traversal ∧ v ∉ w.draft.inlinedIds := by
  have split := partitioned.split
  have hot : v ∈ p.hot.traversal := by
    refine (split.hot_iff v).mpr ⟨⟨v, n, found, pulls, .refl⟩, fun eligible => ?_⟩
    exact Bool.false_ne_true ((eligible.not_pulling found).symm.trans pulls)
  have out : v ∈ p.hot.outNodes := by
    refine (split.hotOut_iff v).mpr ⟨hot, List.mem_filter.mpr ⟨(runnable.complete v).mpr ⟨n, found⟩, ?_⟩⟩
    rw [found]
    exact pulls
  have stays := partitioned.out_not_inlined run List.mem_cons_self hot out
  refine ⟨?_, stays⟩
  rw [partitioned.partition]
  exact Group.mem_without_iff.mpr ⟨hot, stays⟩

/-- After the partition pass the partition is exact. -/
theorem exact (runnable : input.graph.Runnable full) (run : input.graph.RunOrder order)
    (orderSublist : order.Sublist full) (partitioned : Partitioned input full order firsts p w) :
    ExactPartition input.graph input.registry full w.draft.inlinedIds p w.draft.partition := by
  have split := partitioned.split
  have coldListed : ∀ c ∈ p.cold, c.group ∈ p.groups := fun c member =>
    List.mem_cons_of_mem _ (List.mem_map_of_mem member)
  refine ⟨fun v => ?_, ?_, fun group member => ?_, fun v n found pulls => partitioned.pulling_hot runnable run found pulls,
    partitioned.partition, partitioned.numbered.ids, ?_, fun c member => ?_, fun v => split.exists_coldGroup run,
    fun c member v => ?_, fun c member => ?_, fun c member k leaving d dMember inD => ?_, fun c member => ?_, fun c member v out => ?_⟩
  · rw [List.mem_append, partitioned.mem_members_iff, ← split.mem_members_iff run]
    constructor
    · rintro (⟨member, _⟩ | inlined)
      · exact member
      · exact partitioned.inlined_mem inlined
    · intro member
      by_cases inlined : v ∈ w.draft.inlinedIds
      · exact .inr inlined
      · exact .inl ⟨member, inlined⟩
  · rw [List.nodup_append]
    refine ⟨?_, nodup_inlinedIds _, fun a left b right same => ?_⟩
    · rw [partitioned.partition, Partition.members_without]
      exact (split.nodup_members run).filter _
    · exact ((partitioned.mem_members_iff a).mp left).2 (same ▸ right)
  · rw [partitioned.partition, Partition.groups_without] at member
    obtain ⟨whole, listed, rfl⟩ := List.mem_map.mp member
    exact List.filter_sublist.trans ((split.group_sublist listed).trans orderSublist)
  · rw [split.heads]
    exact split.ordered.sublist.trans orderSublist
  · obtain ⟨first, _, group⟩ := split.coldGroup member
    exact ⟨first, List.mem_of_mem_head? (group.head ▸ Option.mem_some_self first), group.mem_iff⟩
  · obtain ⟨_, _, group⟩ := split.coldGroup member
    exact fun inside u feeds => group.source_mem inside feeds
  · obtain ⟨_, _, group⟩ := split.coldGroup member
    exact group.connections
  · obtain ⟨_, _, group⟩ := split.coldGroup member
    obtain ⟨_, _, other⟩ := split.coldGroup dMember
    exact group.sink_not_eligible leaving (other.eligible inD)
  · obtain ⟨_, _, group⟩ := split.coldGroup member
    exact ⟨group.outNodes_ne_nil, group.outNodes⟩
  · rw [partitioned.partition] at member
    obtain ⟨whole, listed, rfl⟩ := List.mem_map.mp member
    obtain ⟨_, _, group⟩ := split.coldGroup listed
    have inside := group.outNode_mem out
    have stays := partitioned.out_not_inlined run (coldListed whole listed) inside out
    exact Group.mem_without_iff.mpr ⟨inside, stays⟩

end Partitioned

/-- The passes up to the partition succeed on a fresh draft of the trimmed graph. -/
structure PartitionRun (g : Graph) (r : Registry) (s : Settings) (full : List String)
    (collected partitioned : Workspace) : Prop where
  traversal : g.fullTraversal s.inletCallers.keys = .ok full
  prepared : ∃ symbols draft, Draft.start (g.trim full) full = .ok draft ∧
    (do resolvePortlets ⟨g.trim full, r, s⟩; collectDependencies ⟨g.trim full, r, s⟩ : Build Unit).run.run
      ⟨symbols, draft⟩ = (.ok (), collected)
  partition : (partitionDsp ⟨g.trim full, r, s⟩).run.run collected = (.ok (), partitioned)

/-- The passes before the partition prepare a fresh draft. -/
theorem prepare_ends {input : BuildInput} {w : Workspace} (keyed : ∀ {id n}, input.graph.get? id = some n → n.id = id)
    (started : Started input.graph full w.draft) :
    Ends (do resolvePortlets input; collectDependencies input) w
      (fun _ after => Prepared input full .dependenciesCollected after ∧ w.symbols.Grows after.symbols)
      (fun _ => True) := by
  refine Ends.bind ((resolvePortlets_ends keyed started).mono (fun _ _ post => post) (fun _ _ => trivial)) ?_
  rintro _ resolved ⟨prepared, grows, fresh⟩
  refine (collectDependencies_ends prepared fresh).mono ?_ (fun _ _ => trivial)
  rintro _ collected ⟨preparedNext, growsNext, _⟩
  exact ⟨preparedNext, grows.trans growsNext⟩

/-- What is known at the end of the passes up to the partition. -/
theorem PartitionRun.partitioned {s : Settings} {collected partitioned : Workspace} (wf : g.WellFormed)
    (ran : PartitionRun g r s full collected partitioned) :
    (g.trim full).Runnable full ∧ (∀ v, (g.trim full).Pulled v ↔ g.Pulled v) ∧ ∃ signal before between firsts,
      (g.trim full).signalTraversal (fun _ => true) (pulling (g.trim full) full) = .ok signal ∧
      (∀ v, v ∈ signal ↔ (g.trim full).Pulled v) ∧
      (splitGroups ⟨g.trim full, r, s⟩ full signal).run.run collected = (.ok before, between) ∧
      Partitioned ⟨g.trim full, r, s⟩ full (full.filter (fun id => signal.contains id)) firsts before partitioned := by
  obtain ⟨signal, rest, rfl, walked⟩ := (Graph.fullTraversal_yields wf _).of_eq_ok ran.traversal
  have runnable := walked.runnable wf
  obtain ⟨symbols, draft, start, collect⟩ := ran.prepared
  have started := (start_yields _ _).of_eq_ok start
  obtain ⟨prepared, _⟩ := (prepare_ends runnable.wf.keyed started).of_run collect
  obtain ⟨found, before, between, walk, run, divided, _, _, split⟩ := (partitionDsp_ends prepared).of_run ran.partition
  have ordered := walked_of_runnable runnable walk
  obtain ⟨firsts, split⟩ := split ordered
  exact ⟨runnable, walked.pulled_trim_iff wf, found, before, between, firsts, walk, ordered.pulled, run,
    divided.partitioned runnable.wf prepared split⟩

/-- Whenever the passes up to the partition succeed, the partition is exact. -/
theorem partition_exact {s : Settings} {collected partitioned : Workspace} (accepted : g.checkIntegrity = .ok ())
    (keyed : g.PortletsKeyed) (kinds : g.KindsAgree) (ran : PartitionRun g r s full collected partitioned) :
    (∀ v, (g.trim full).Pulled v ↔ g.Pulled v) ∧ ∃ signal before between,
      (g.trim full).signalTraversal (fun _ => true) (pulling (g.trim full) full) = .ok signal ∧
      (splitGroups ⟨g.trim full, r, s⟩ full signal).run.run collected = (.ok before, between) ∧
      ExactPartition (g.trim full) r full partitioned.draft.inlinedIds before partitioned.draft.partition := by
  obtain ⟨runnable, sameAncestry, signal, before, between, firsts, walk, walked, split, done⟩ :=
    ran.partitioned (Graph.wellFormed_of_checks accepted keyed kinds)
  exact ⟨sameAncestry, signal, before, between, walk, split,
    done.exact runnable (runnable.runOrder walked) List.filter_sublist⟩

/-- A node with signal portlets and the connections recorded at it. -/
def sampleNode (id : String) (inlets outlets : List String) (sources sinks : List (String × List Endpoint)) : Node :=
  { Node.bare id id with
    inlets := .ofList (inlets.map (fun i => (i, ⟨i, .signal⟩)))
    outlets := .ofList (outlets.map (fun o => (o, ⟨o, .signal⟩)))
    sources := .ofList sources
    sinks := .ofList sinks
    isPullingSignal := outlets.isEmpty }

/-- An oscillator whose signal is halved on its way to the output, and a number that is doubled and shaped. -/
def samplePatch : Graph := [
  sampleNode "osc" [] ["0"] [] [("0", [⟨"half", "0"⟩])],
  sampleNode "half" ["0"] ["0"] [("0", [⟨"osc", "0"⟩])] [("0", [⟨"out", "0"⟩])],
  sampleNode "num" [] ["0"] [] [("0", [⟨"double", "0"⟩])],
  sampleNode "double" ["0"] ["0"] [("0", [⟨"num", "0"⟩])] [("0", [⟨"shape", "0"⟩])],
  sampleNode "shape" ["0"] ["0"] [("0", [⟨"double", "0"⟩])] [("0", [⟨"out", "1"⟩])],
  sampleNode "out" ["0", "1"] [] [("0", [⟨"half", "0"⟩]), ("1", [⟨"shape", "0"⟩])] []].foldl Graph.insert .empty

/-- The types of the sample patch; halving and doubling are inline. -/
def sampleRegistry : Registry :=
  let scaled (factor : String) : Implementation :=
    { flags := ⟨true, true⟩, loop := fun c => do return some (.ofCode ((← c.ins "0") ++ " * " ++ factor)) }
  Registry.empty |>.register "osc" {} |>.register "out" {} |>.register "num" { flags := ⟨true, false⟩ }
    |>.register "shape" { flags := ⟨true, false⟩ } |>.register "half" (scaled "0.5") |>.register "double" (scaled "2")

def sampleFull : List String := ["osc", "half", "num", "double", "shape", "out"]

def sampleInput : BuildInput := ⟨samplePatch.trim sampleFull, sampleRegistry, {}⟩

/-- The fresh draft of the sample patch. -/
def sampleStart : Workspace :=
  ⟨((Symbols.ofGraph sampleInput.graph false).toOption).getD ⟨∅, ∅, ∅, .empty "", ∅, ∅⟩,
   (Draft.start sampleInput.graph sampleFull).toOption.getD ⟨∅, ∅, .empty, .start [], []⟩⟩

def sampleCollected : Workspace :=
  ((do resolvePortlets sampleInput; collectDependencies sampleInput : Build Unit).run.run sampleStart).2

def samplePartitioned : Workspace := ((partitionDsp sampleInput).run.run sampleCollected).2

theorem samplePatch_run : PartitionRun samplePatch sampleRegistry {} sampleFull sampleCollected samplePartitioned := by
  have started : Draft.start sampleInput.graph sampleFull = .ok sampleStart.draft :=
    eq_ok_getD (by decide +kernel) ⟨∅, ∅, .empty, .start [], []⟩
  have collected : (do resolvePortlets sampleInput; collectDependencies sampleInput : Build Unit).run.run sampleStart =
      (.ok (), sampleCollected) :=
    run_eq_of_ok (by decide +kernel)
  have partitioned : (partitionDsp sampleInput).run.run sampleCollected = (.ok (), samplePartitioned) :=
    run_eq_of_ok (by decide +kernel)
  exact ⟨by decide +kernel, ⟨sampleStart.symbols, sampleStart.draft, started, collected⟩, partitioned⟩

/-- In the sample patch two nodes are inlined, one into the hot group and one into the cold group. -/
theorem partition_exact_sample :
    PartitionRun samplePatch sampleRegistry {} sampleFull sampleCollected samplePartitioned ∧
      samplePartitioned.draft.inlinedIds = ["half", "double"] ∧
      samplePartitioned.draft.partition.groups = [⟨["osc", "out"], ["out"]⟩, ⟨["num", "shape"], ["shape"]⟩] ∧
      (∀ v, (samplePatch.trim sampleFull).Pulled v ↔ samplePatch.Pulled v) ∧ ∃ signal before between,
        sampleInput.graph.signalTraversal (fun _ => true) (pulling sampleInput.graph sampleFull) = .ok signal ∧
        (splitGroups sampleInput sampleFull signal).run.run sampleCollected = (.ok before, between) ∧
        ExactPartition sampleInput.graph sampleRegistry sampleFull ["half", "double"] before
          samplePartitioned.draft.partition := by
  have inlined : samplePartitioned.draft.inlinedIds = ["half", "double"] := by decide +kernel
  refine ⟨samplePatch_run, inlined, by decide +kernel, ?_⟩
  rw [← inlined]
  exact partition_exact (by decide +kernel) (by decide +kernel) (by decide +kernel) samplePatch_run

end Draft
end DspPatch
