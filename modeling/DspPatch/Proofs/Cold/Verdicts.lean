import DspPatch.Proofs.Draft.ExactPartition

/-!
Signal cycles and the verdicts on nodes, told by the records of the graph. The walk along sinks finds the nodes on cycles
of any graph (`cycleMembers_exact`). On a well-formed graph the verdicts, which follow the sources instead, are reached
without going in circles, and they are right in whichever order nodes are asked for (`verdicts_exact`).
-/
namespace DspPatch.Cold
open Relation
variable {g : Graph} {r : Registry}

/-- Some signal outlet of `u` has a sink at `v`, and both are among `order`. -/
def LeadsWithin (g : Graph) (order : List String) (u v : String) : Prop :=
  u ∈ order ∧ v ∈ order ∧ ∃ n, g.get? u = some n ∧ ∃ outlet ∈ n.outletsOf .signal, ∃ sink ∈ n.sinksOf outlet.id, sink.node = v

theorem mem_signalSinks_iff_sink {u v : String} : v ∈ signalSinks g u ↔
    ∃ n, g.get? u = some n ∧ ∃ outlet ∈ n.outletsOf .signal, ∃ sink ∈ n.sinksOf outlet.id, sink.node = v := by
  unfold signalSinks
  cases g.get? u with
  | none => simp
  | some n =>
    simp only [Node.sinkEndpoints, List.mem_map, List.mem_flatMap, Option.some.injEq, exists_eq_left']
    constructor
    · rintro ⟨sink, ⟨outlet, declared, listed⟩, same⟩
      exact ⟨outlet, declared, sink, listed, same⟩
    · rintro ⟨outlet, declared, sink, listed, same⟩
      exact ⟨sink, ⟨outlet, declared, listed⟩, same⟩

/-- The walk enters nodes of `order` only, so a cycle that it is on lies within. -/
theorem mem_members_iff_within {order : List String} {id : String} :
    id ∈ Cycles.members order (signalSinks g) ↔ id ∈ order ∧ TransGen (LeadsWithin g order) id id := by
  rw [Cycles.mem_members_iff]
  constructor
  · intro cycle
    obtain ⟨_, _, last⟩ := TransGen.tail'_iff.mp cycle
    refine ⟨last.2, ?_⟩
    have listed : ∀ {a}, TransGen (Cycles.Leads order (signalSinks g)) id a → TransGen (LeadsWithin g order) id a := by
      intro a chain
      induction chain with
      | single step => exact .single ⟨last.2, step.2, mem_signalSinks_iff_sink.mp step.1⟩
      | tail before step ih =>
        obtain ⟨_, _, inner⟩ := TransGen.tail'_iff.mp before
        exact ih.tail ⟨inner.2, step.2, mem_signalSinks_iff_sink.mp step.1⟩
    exact listed cycle
  · rintro ⟨_, cycle⟩
    exact TransGen.mono (fun _ _ step => ⟨mem_signalSinks_iff_sink.mpr step.2.2, step.2.1⟩) _ _ cycle

/-- Among nodes of any graph exactly those on a cycle of signal sinks within the list are found. The order of the list and
    the order of the sinks do not matter. -/
theorem cycleMembers_exact (order : List String) (present : ∀ id ∈ order, ∃ n, g.get? id = some n) :
    ∃ found, cycleMembers g order = .ok found ∧
      (∀ id, id ∈ found ↔ id ∈ order ∧ TransGen (LeadsWithin g order) id id) ∧
      ∀ (other : Graph) (shuffled : List String), (∀ id, id ∈ shuffled ↔ id ∈ order) →
        (∀ id ∈ order, (∃ n, other.get? id = some n) ∧ ∀ v, v ∈ signalSinks other id ↔ v ∈ signalSinks g id) →
        ∃ again, cycleMembers other shuffled = .ok again ∧ ∀ id, id ∈ again ↔ id ∈ found := by
  refine ⟨_, cycleMembers_eq_ok present, fun id => mem_members_iff_within, fun other shuffled same alike => ?_⟩
  refine ⟨_, cycleMembers_eq_ok (fun id member => (alike id ((same id).mp member)).1), fun id => ?_⟩
  have within : ∀ u v, LeadsWithin other shuffled u v ↔ LeadsWithin g order u v := by
    intro u v
    rw [LeadsWithin, LeadsWithin, same, same, ← mem_signalSinks_iff_sink, ← mem_signalSinks_iff_sink]
    exact and_congr_right (fun member => and_congr_right (fun _ => (alike u member).2 v))
  rw [mem_members_iff_within, mem_members_iff_within, same]
  rw [show LeadsWithin other shuffled = LeadsWithin g order from funext₂ (fun u v => propext (within u v))]

/-- A mixer and a delay that feed each other, an echo that feeds itself and them, an input and an output. -/
def echoesPatch : Graph := [
  Draft.sampleNode "in" [] ["0"] [] [("0", [⟨"mix", "0"⟩, ⟨"echo", "0"⟩])],
  Draft.sampleNode "mix" ["0", "1", "2"] ["0"] [("0", [⟨"in", "0"⟩]), ("1", [⟨"delay", "0"⟩]), ("2", [⟨"echo", "0"⟩])]
    [("0", [⟨"out", "0"⟩, ⟨"delay", "0"⟩])],
  Draft.sampleNode "delay" ["0"] ["0"] [("0", [⟨"mix", "0"⟩])] [("0", [⟨"mix", "1"⟩])],
  Draft.sampleNode "echo" ["0", "1"] ["0"] [("0", [⟨"in", "0"⟩]), ("1", [⟨"echo", "0"⟩])]
    [("0", [⟨"mix", "2"⟩, ⟨"echo", "1"⟩])],
  Draft.sampleNode "out" ["0"] [] [("0", [⟨"mix", "0"⟩])] []].foldl Graph.insert .empty

/-- The mixer, the delay and the echo are found, the input and the output are not; without the delay only the echo is. -/
theorem cycleMembers_exact_echoes :
    (TransGen (LeadsWithin echoesPatch ["in", "out", "delay", "mix", "echo"]) "mix" "mix" ∧
      TransGen (LeadsWithin echoesPatch ["in", "out", "delay", "mix", "echo"]) "echo" "echo" ∧
      ¬TransGen (LeadsWithin echoesPatch ["in", "out", "delay", "mix", "echo"]) "out" "out") ∧
    ¬TransGen (LeadsWithin echoesPatch ["in", "out", "mix", "echo"]) "mix" "mix" := by
  have present : ∀ id ∈ ["in", "out", "delay", "mix", "echo"], ∃ n, echoesPatch.get? id = some n := by
    intro id member
    exact Table.mem_keys_iff.mp ((by decide +kernel :
      ∀ id ∈ ["in", "out", "delay", "mix", "echo"], id ∈ echoesPatch.nodes.keys) id member)
  obtain ⟨all, foundAll, all_iff, _⟩ := cycleMembers_exact ["in", "out", "delay", "mix", "echo"] present
  obtain ⟨few, foundFew, few_iff, _⟩ := cycleMembers_exact (g := echoesPatch) ["in", "out", "mix", "echo"]
    (fun id member => present id (by revert id; decide))
  have allEq : cycleMembers echoesPatch ["in", "out", "delay", "mix", "echo"] = .ok ["delay", "mix", "echo"] := by
    decide +kernel
  have fewEq : cycleMembers echoesPatch ["in", "out", "mix", "echo"] = .ok ["echo"] := by decide +kernel
  cases foundAll.symm.trans allEq
  cases foundFew.symm.trans fewEq
  refine ⟨⟨((all_iff "mix").mp (by decide)).2, ((all_iff "echo").mp (by decide)).2, fun cycle => ?_⟩, fun cycle => ?_⟩
  · exact absurd ((all_iff "out").mpr ⟨by decide, cycle⟩) (by decide)
  · exact absurd ((few_iff "mix").mpr ⟨by decide, cycle⟩) (by decide)

/-- The pulled nodes, which `full` holds, are decided in any order without an error. -/
theorem verdicts_of_listed (wf : g.WellFormed)
    (covered : ∀ id n, g.get? id = some n → ∃ i, r.types.get? n.type = some i) {full : List String}
    (listed : ∀ v, g.Pulled v → v ∈ full) :
    ∃ signal, g.signalTraversal (fun _ => true) (Draft.pulling g full) = .ok signal ∧ (∀ v, v ∈ signal ↔ g.Pulled v) ∧
      ∃ cyclic, cycleMembers g (full.filter (fun id => signal.contains id)) = .ok cyclic ∧
        ∀ (asked : List String) (id : String), (∀ v ∈ asked, v ∈ full.filter (fun id => signal.contains id)) →
          id ∈ full.filter (fun id => signal.contains id) →
          ∃ before after verdict, decideAll g (isCandidate r signal cyclic) asked = .ok before ∧
            decideFrom g (isCandidate r signal cyclic) [] id before = .ok after ∧ after.get? id = some verdict ∧
            (verdict = true ↔ Eligible g r id) := by
  have pullers : ∀ v n, g.get? v = some n → n.isPullingSignal = true → v ∈ full := fun v n found pulls =>
    listed v ⟨v, n, found, pulls, .refl⟩
  obtain ⟨signal, walk, pulled⟩ := Graph.signalTraversal_pulling wf pullers
  have order_iff : ∀ v, v ∈ full.filter (fun id => signal.contains id) ↔ g.Pulled v := by
    intro v
    rw [List.mem_filter, List.contains_iff_mem, pulled]
    exact ⟨fun both => both.2, fun isPulled => ⟨listed v isPulled, isPulled⟩⟩
  have known : ∀ v ∈ full.filter (fun id => signal.contains id), ∃ n, g.get? v = some n := fun v member =>
    ((order_iff v).mp member).present
  have registered : ¬Unknown g r := by
    rintro ⟨id, n, found, missing⟩
    obtain ⟨i, present⟩ := covered id n found
    exact Option.some_ne_none i (present.symm.trans missing)
  refine ⟨signal, walk, pulled, _, cycleMembers_eq_ok known, fun asked id askedListed member => ?_⟩
  obtain ⟨before, asking, decided⟩ := Yields.exists_ok ((decideAll_yields (r := r) wf order_iff pulled
    (fun v inside => known v (askedListed v inside))).mono (fun _ post => post) (fun _ bad => registered bad))
  obtain ⟨after, deciding, decides⟩ := Yields.exists_ok ((decideFrom_yields wf (isCandidate_yields (r := r) wf order_iff pulled)
    Candidate.not_cyclic (known id member) (List.forall_mem_nil _) decided.sound).mono (fun _ post => post)
    (fun _ bad => registered bad))
  obtain ⟨verdict, stored⟩ := Table.mem_keys_iff.mp decides.decided
  exact ⟨before, after, verdict, asking, deciding, stored, decides.sound id verdict stored⟩

/-- In a graph and in what is left of it after the traversal, the nodes of the traversal that are pulled are decided in
    any order without an error. A node passes if it and all its signal ancestors are pure, do not pull, are reached from
    the pulling nodes, have a signal outlet and lie on no signal cycle. -/
theorem verdicts_exact {h : Graph} {callers full : List String} (accepted : g.checkIntegrity = .ok ())
    (keyed : g.PortletsKeyed) (kinds : g.KindsAgree)
    (covered : ∀ id n, g.get? id = some n → ∃ i, r.types.get? n.type = some i)
    (traversal : g.fullTraversal callers = .ok full) (part : h = g ∨ h = g.trim full) :
    ∃ signal cyclic, h.signalTraversal (fun _ => true) (Draft.pulling h full) = .ok signal ∧
      cycleMembers h (full.filter (fun id => signal.contains id)) = .ok cyclic ∧
      ∀ (asked : List String) (id : String), (∀ v ∈ asked, v ∈ full.filter (fun id => signal.contains id)) →
        id ∈ full.filter (fun id => signal.contains id) →
        ∃ before after verdict, decideAll h (isCandidate r signal cyclic) asked = .ok before ∧
          decideFrom h (isCandidate r signal cyclic) [] id before = .ok after ∧ after.get? id = some verdict ∧
          (verdict = true ↔ ∀ a, ReflTransGen (h.Feeds .signal) a id → ∃ n i, h.get? a = some n ∧
            r.types.get? n.type = some i ∧ i.flags.isPure = true ∧ n.isPullingSignal = false ∧ a ∈ signal ∧
            n.outletsOf .signal ≠ [] ∧ ¬TransGen (h.Feeds .signal) a a) := by
  have wf := Graph.wellFormed_of_checks accepted keyed kinds
  obtain ⟨first, rest, rfl, walked⟩ := (Graph.fullTraversal_yields wf callers).of_eq_ok traversal
  have listed : ∀ v, (g.trim (first ++ rest)).Pulled v → v ∈ first ++ rest := fun v pulled =>
    List.mem_append_left _ ((walked.mem_signal_iff wf v).mpr pulled)
  have exact : h.WellFormed ∧ (∀ id n, h.get? id = some n → ∃ i, r.types.get? n.type = some i) ∧
      ∀ v, h.Pulled v → v ∈ first ++ rest := by
    rcases part with rfl | rfl
    · exact ⟨wf, covered, fun v pulled => listed v ((walked.pulled_trim_iff wf v).mpr pulled)⟩
    · refine ⟨Graph.wellFormed_trim wf _, fun id n found => ?_, listed⟩
      obtain ⟨whole, present, _, rfl⟩ := (Graph.get?_trim wf.keyed).mp found
      exact covered id whole present
  obtain ⟨signal, walk, pulled, cyclic, cycles, verdicts⟩ := verdicts_of_listed exact.1 exact.2.1 exact.2.2
  refine ⟨signal, cyclic, walk, cycles, fun asked id askedListed member => ?_⟩
  obtain ⟨before, after, verdict, asking, deciding, stored, verdict_iff⟩ := verdicts asked id askedListed member
  refine ⟨before, after, verdict, asking, deciding, stored, verdict_iff.trans ?_⟩
  simp only [Eligible, Passes, Candidate, pulled]

/-- In the sample patch the shaper passes, after other nodes were asked for: it, the doubling before it and the number are
    pure and lie on no cycle. -/
theorem verdicts_exact_sample :
    ∃ before after, decideAll Draft.samplePatch (isCandidate Draft.sampleRegistry Draft.sampleFull []) ["out", "num"] = .ok before ∧
      decideFrom Draft.samplePatch (isCandidate Draft.sampleRegistry Draft.sampleFull []) [] "shape" before = .ok after ∧
      after.get? "shape" = some true ∧
      ∀ a, ReflTransGen (Draft.samplePatch.Feeds .signal) a "shape" → ∃ n i, Draft.samplePatch.get? a = some n ∧
        Draft.sampleRegistry.types.get? n.type = some i ∧ i.flags.isPure = true ∧ n.isPullingSignal = false ∧
        a ∈ Draft.sampleFull ∧ n.outletsOf .signal ≠ [] ∧ ¬TransGen (Draft.samplePatch.Feeds .signal) a a := by
  have covered : ∀ id n, Draft.samplePatch.get? id = some n → ∃ i, Draft.sampleRegistry.types.get? n.type = some i := by
    intro id n found
    have registered : ∀ n ∈ Draft.samplePatch.nodes.values, n.type ∈ Draft.sampleRegistry.types.keys := by decide +kernel
    exact Table.mem_keys_iff.mp (registered n (Table.mem_values_iff.mpr ⟨id, found⟩))
  have traversal : Draft.samplePatch.fullTraversal [] = .ok Draft.sampleFull := by decide +kernel
  obtain ⟨signal, cyclic, walk, cycles, verdicts⟩ := verdicts_exact (r := Draft.sampleRegistry) (by decide +kernel)
    (by decide +kernel) (by decide +kernel) covered traversal (.inl rfl)
  have walked : Draft.samplePatch.signalTraversal (fun _ => true) (Draft.pulling Draft.samplePatch Draft.sampleFull) =
      .ok Draft.sampleFull := by decide +kernel
  cases walk.symm.trans walked
  have none : cycleMembers Draft.samplePatch (Draft.sampleFull.filter (fun id => Draft.sampleFull.contains id)) = .ok [] := by
    decide +kernel
  cases cycles.symm.trans none
  obtain ⟨before, after, verdict, asking, deciding, stored, verdict_iff⟩ := verdicts ["out", "num"] "shape"
    (by decide +kernel) (by decide +kernel)
  have passed : (decideAll Draft.samplePatch (isCandidate Draft.sampleRegistry Draft.sampleFull []) ["out", "num"] >>=
      fun before => (decideFrom Draft.samplePatch (isCandidate Draft.sampleRegistry Draft.sampleFull []) [] "shape" before).map
        (fun after => after.get? "shape")) = .ok (some true) := by decide +kernel
  rw [asking] at passed
  change (decideFrom _ _ _ _ before).map _ = _ at passed
  rw [deciding] at passed
  have accepted : after.get? "shape" = some true := Except.ok.inj passed
  cases stored.symm.trans accepted
  exact ⟨before, after, asking, deciding, accepted, verdict_iff.mp rfl⟩

end DspPatch.Cold
