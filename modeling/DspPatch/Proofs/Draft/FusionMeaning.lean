import DspPatch.Proofs.Draft.ExactPartition
import DspPatch.Proofs.Graph.InlinedRun
import Mathlib.Algebra.Ring.Int.Defs

/-!
Fusion keeps the meaning of the groups. However the nodes are interpreted, running the groups without the inlined nodes,
which are computed where they are read, gives all other nodes the values and states that the groups before fusion give.
-/
namespace DspPatch.Draft
open Build Relation
variable {g : Graph} {r : Registry} {full order firsts : List String} {p : Partition}

/-- The only sink of a fusible node is its target. -/
theorem Fusible.feeds_iff (wf : g.WellFormed) {id target : String} {n : Node} (found : g.get? id = some n)
    (fusible : Fusible g p id ((n.outletsOf .signal).map Portlet.id) target) (v : String) :
    g.Feeds .signal id v ↔ v = target := by
  obtain ⟨m, outlet, e, group, single, mFound, sinks, rfl, _⟩ := fusible
  cases found.symm.trans mFound
  constructor
  · rintro ⟨o, i, k, q, kFound, declared, kind, listed⟩
    cases found.symm.trans kFound
    cases wf.outletId found declared
    have isOutlet : q.id ∈ (n.outletsOf .signal).map Portlet.id :=
      List.mem_map_of_mem ((Graph.mem_outletsOf_iff wf found).mpr ⟨declared, kind⟩)
    rw [single, List.mem_singleton] at isOutlet
    have last : (⟨v, i⟩ : Endpoint) ∈ n.sinksOf q.id := listed
    rw [isOutlet, sinks, List.mem_singleton] at last
    rw [← last]
  · rintro rfl
    have isOutlet : outlet ∈ (n.outletsOf .signal).map Portlet.id := by rw [single]; exact List.mem_cons_self
    obtain ⟨q, member, rfl⟩ := List.mem_map.mp isOutlet
    obtain ⟨declared, kind⟩ := (Graph.mem_outletsOf_iff wf found).mp member
    refine ⟨q.id, e.portlet, n, q, found, declared, kind, ?_⟩
    dsimp only
    rw [sinks]
    exact List.mem_cons_self

/-- The inlined nodes can be computed where they are read. -/
theorem Partitioned.inlinable {input : BuildInput} {w : Workspace} (wf : input.graph.WellFormed)
    (run : input.graph.RunOrder order) (partitioned : Partitioned input full order firsts p w) :
    input.graph.Inlinable order w.draft.inlinedIds := by
  refine ⟨wf, run, fun u member => ?_⟩
  obtain ⟨n, target, found, fusible⟩ := partitioned.inlined u member
  refine ⟨target, ?_, fusible.feeds_iff wf found⟩
  obtain ⟨_, _, _, group, _, _, _, _, listed, before, _⟩ := fusible
  exact before.trans (partitioned.split.group_sublist listed)

/-- An inlined node and its sink are in the same group. -/
theorem Partitioned.undivided {input : BuildInput} {w : Workspace} (wf : input.graph.WellFormed)
    (run : input.graph.RunOrder order) (partitioned : Partitioned input full order firsts p w) {group : Group}
    (listed : group ∈ p.groups) : Interpretation.Undivided input.graph order w.draft.inlinedIds group.traversal := by
  refine ⟨partitioned.split.group_sublist listed, fun u member v feeds => ?_⟩
  obtain ⟨n, target, found, fusible⟩ := partitioned.inlined u member
  obtain rfl := (fusible.feeds_iff wf found v).mp feeds
  obtain ⟨_, _, _, own, _, _, _, _, ownListed, before, _⟩ := fusible
  have uOwn : u ∈ own.traversal := before.subset (by simp)
  have vOwn : v ∈ own.traversal := before.subset (by simp)
  constructor
  · intro inside
    rwa [partitioned.split.group_unique run listed ownListed inside uOwn]
  · intro inside
    rwa [partitioned.split.group_unique run listed ownListed inside vOwn]

/-- Under an interpretation the groups of `after`, which lack the inlined nodes, do what the groups of `before` do. -/
structure SameMeaning {V S : Type} (I : Interpretation V S) (g : Graph) (inlined : List String)
    (before after : Partition) : Prop where
  /-- There is exactly one way to compute inlined nodes where they are read. -/
  reading : ∀ store read, I.OnTheSpot g store inlined read ↔ read = I.readInlined g store inlined
  frames : ∀ (count : Nat) (store : Store V S), Interpretation.Agrees inlined
    (I.runAll g Store.outlets store (List.replicate count before.hot.traversal))
    (I.runAll g (fun store => I.readInlined g store inlined) store (List.replicate count after.hot.traversal))
  /-- The same holds when the cold groups run in between, in whatever order. -/
  schedules : ∀ schedule ⊆ before.groups.zip after.groups, ∀ store : Store V S, Interpretation.Agrees inlined
    (I.runAll g Store.outlets store (schedule.map (fun pair => pair.1.traversal)))
    (I.runAll g (fun store => I.readInlined g store inlined) store (schedule.map (fun pair => pair.2.traversal)))

/-- Fused groups do what they did before, if the inlined nodes leave their states alone. -/
theorem Partitioned.sameMeaning {V S : Type} (I : Interpretation V S) {input : BuildInput} {w : Workspace}
    (wf : input.graph.WellFormed) (run : input.graph.RunOrder order)
    (partitioned : Partitioned input full order firsts p w)
    (pure : ∀ id ∈ w.draft.inlinedIds, ∀ inlets state, (I.step id inlets state).2 = state) :
    SameMeaning I input.graph w.draft.inlinedIds p w.draft.partition := by
  have fits := partitioned.inlinable wf run
  have schedules : ∀ schedule ⊆ p.groups.zip w.draft.partition.groups, ∀ store : Store V S,
      Interpretation.Agrees w.draft.inlinedIds
        (I.runAll input.graph Store.outlets store (schedule.map (fun pair => pair.1.traversal)))
        (I.runAll input.graph (fun store => I.readInlined input.graph store w.draft.inlinedIds) store
          (schedule.map (fun pair => pair.2.traversal))) := by
    intro schedule listed store
    have paired : ∀ pair ∈ schedule, pair.1 ∈ p.groups ∧ pair.2 = pair.1.without w.draft.inlinedIds := by
      intro pair member
      have inZip := listed member
      rw [partitioned.partition, Partition.groups_without, List.zip_map_right, List.mem_map] at inZip
      obtain ⟨⟨left, right⟩, inside, rfl⟩ := inZip
      rw [List.zip_eq_zipWith, List.zipWith_self, List.mem_map] at inside
      obtain ⟨group, groupListed, same⟩ := inside
      cases same
      exact ⟨groupListed, rfl⟩
    have short : schedule.map (fun pair => pair.2.traversal) = (schedule.map (fun pair => pair.1.traversal)).map
        (fun traversal => traversal.filter (fun id => !w.draft.inlinedIds.contains id)) := by
      rw [List.map_map]
      refine List.map_congr_left (fun pair member => ?_)
      rw [(paired pair member).2]
      rfl
    rw [short]
    refine Interpretation.runAll_inlined fits pure (fun traversal member => ?_) ⟨fun _ _ => rfl, rfl⟩
    obtain ⟨pair, inside, rfl⟩ := List.mem_map.mp member
    exact partitioned.undivided wf run (paired pair inside).1
  refine ⟨fun store read => ⟨fun spot => ?_, ?_⟩, fun count store => ?_, schedules⟩
  · exact spot.unique fits (Interpretation.onTheSpot_readInlined fits store)
  · rintro rfl
    exact Interpretation.onTheSpot_readInlined fits store
  · have hotPair : (p.hot, w.draft.partition.hot) ∈ p.groups.zip w.draft.partition.groups := List.mem_cons_self
    have hotFrames := schedules (List.replicate count (p.hot, w.draft.partition.hot))
      (fun pair member => (List.eq_of_mem_replicate member).symm ▸ hotPair) store
    rwa [List.map_replicate, List.map_replicate] at hotFrames

/-- Whenever the passes up to the partition succeed, fusion has kept the meaning of the groups. -/
theorem fusion_preserves_meaning {s : Settings} {collected partitioned : Workspace} (accepted : g.checkIntegrity = .ok ())
    (keyed : g.PortletsKeyed) (kinds : g.KindsAgree) (ran : PartitionRun g r s full collected partitioned)
    {V S : Type} (I : Interpretation V S)
    (pure : ∀ id ∈ partitioned.draft.inlinedIds, ∀ inlets state, (I.step id inlets state).2 = state) :
    ∃ signal before between,
      (g.trim full).signalTraversal (fun _ => true) (pulling (g.trim full) full) = .ok signal ∧
      (splitGroups ⟨g.trim full, r, s⟩ full signal).run.run collected = (.ok before, between) ∧
      SameMeaning I (g.trim full) partitioned.draft.inlinedIds before partitioned.draft.partition := by
  obtain ⟨runnable, _, signal, before, between, firsts, walk, walked, split, done⟩ :=
    ran.partitioned (Graph.wellFormed_of_checks accepted keyed kinds)
  exact ⟨signal, before, between, walk, split, done.sameMeaning I runnable.wf (runnable.runOrder walked) pure⟩

/-- Numbers as signals: the oscillator counts frames in its state, the output adds up what it has got. -/
def sampleMeaning : Interpretation Int Int where
  mix := List.sum
  step id inlets state :=
    let input := (inlets.map Prod.snd).sum
    match id with
    | "osc" => (fun _ => state, state + 1)
    | "num" => (fun _ => 7, state)
    | "half" => (fun _ => input / 2, state)
    | "double" => (fun _ => input * 2, state)
    | "out" => (fun _ => 0, state + input)
    | _ => (fun _ => input, state)

/-- In the sample patch the output adds up the same numbers with and without the inlined nodes. -/
theorem fusion_preserves_meaning_sample :
    PartitionRun samplePatch sampleRegistry {} sampleFull sampleCollected samplePartitioned ∧
      samplePartitioned.draft.inlinedIds = ["half", "double"] ∧ ∃ signal before between,
        sampleInput.graph.signalTraversal (fun _ => true) (pulling sampleInput.graph sampleFull) = .ok signal ∧
        (splitGroups sampleInput sampleFull signal).run.run sampleCollected = (.ok before, between) ∧
        SameMeaning sampleMeaning sampleInput.graph ["half", "double"] before samplePartitioned.draft.partition := by
  have inlined : samplePartitioned.draft.inlinedIds = ["half", "double"] := by decide +kernel
  refine ⟨samplePatch_run, inlined, ?_⟩
  rw [← inlined]
  refine fusion_preserves_meaning (by decide +kernel) (by decide +kernel) (by decide +kernel) samplePatch_run sampleMeaning ?_
  rw [inlined]
  intro id member inlets state
  rcases List.mem_cons.mp member with rfl | last
  · rfl
  · rw [List.mem_singleton.mp last]
    rfl

end DspPatch.Draft
