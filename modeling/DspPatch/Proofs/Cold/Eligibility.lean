import DspPatch.Proofs.Cycles.Walk
import DspPatch.Proofs.Graph.FullTraversal

/-!
Eligibility. A node is eligible exactly if it and all its signal ancestors are candidates: pure, not pulling, pulled, with
a signal outlet and on no signal cycle. The decision goes through the ancestors with a table of verdicts; it never runs in
circles, since a node whose sources are looked at lies on no cycle, and it fails only at a node of unknown type.
-/
namespace DspPatch.Cold
open Relation
variable {g : Graph} {r : Registry}

/-- What a node has to satisfy apart from its sources. -/
def Candidate (g : Graph) (r : Registry) (id : String) : Prop :=
  ∃ n i, g.get? id = some n ∧ r.types.get? n.type = some i ∧ i.flags.isPure = true ∧ n.isPullingSignal = false ∧
    g.Pulled id ∧ n.outletsOf .signal ≠ [] ∧ ¬TransGen (g.Feeds .signal) id id

/-- A node passes if it and all its signal ancestors are good. -/
def Passes (g : Graph) (good : String → Prop) (id : String) : Prop := ∀ a, ReflTransGen (g.Feeds .signal) a id → good a

/-- A node is eligible if it and all its signal ancestors are candidates. -/
def Eligible (g : Graph) (r : Registry) (id : String) : Prop := Passes g (Candidate g r) id

theorem passes_iff {good : String → Prop} {id : String} :
    Passes g good id ↔ good id ∧ ∀ source, g.Feeds .signal source id → Passes g good source := by
  constructor
  · intro passes
    exact ⟨passes id .refl, fun source feeds a chain => passes a (chain.tail feeds)⟩
  · rintro ⟨own, sources⟩ a chain
    rcases chain.cases_tail with same | ⟨source, earlier, feeds⟩
    · exact same ▸ own
    · exact sources source feeds a earlier

/-- Every verdict of the table is right. -/
def Decided (g : Graph) (good : String → Prop) (decided : Table Bool) : Prop :=
  ∀ id verdict, decided.get? id = some verdict → (verdict = true ↔ Passes g good id)

theorem Decided.insert {good : String → Prop} {decided : Table Bool} (sound : Decided g good decided) {id : String}
    {verdict : Bool} (right : verdict = true ↔ Passes g good id) : Decided g good (decided.insert id verdict) := by
  intro other known found
  rw [Table.get?_insert] at found
  by_cases same : other = id
  · rw [if_pos same, Option.some.injEq] at found
    rw [same, ← found]
    exact right
  · rw [if_neg same] at found
    exact sound other known found

/-- A table in which all verdicts are right, with a verdict for `id` and for all that were decided before. -/
structure Decides (g : Graph) (good : String → Prop) (before : Table Bool) (id : String) (after : Table Bool) : Prop where
  sound : Decided g good after
  kept : ∀ key ∈ before.keys, key ∈ after.keys
  decided : id ∈ after.keys

/-- The same for all sources looked at so far. -/
structure SourcesDecided (g : Graph) (good : String → Prop) (before : Table Bool) (seen : List String)
    (after : Table Bool) : Prop where
  sound : Decided g good after
  kept : ∀ key ∈ before.keys, key ∈ after.keys
  decided : ∀ id ∈ seen, id ∈ after.keys

theorem SourcesDecided.next {good : String → Prop} {before between after : Table Bool} {seen : List String} {id : String}
    (first : SourcesDecided g good before seen between) (step : Decides g good between id after) :
    SourcesDecided g good before (seen ++ [id]) after := by
  refine ⟨step.sound, fun key member => step.kept key (first.kept key member), fun key member => ?_⟩
  rcases List.mem_append.mp member with earlier | last
  · exact step.kept key (first.decided key earlier)
  · exact List.mem_singleton.mp last ▸ step.decided

/-- Decisions are right, provided that good nodes lie on no cycle. The nodes of `path` are fed by the node that is being
    decided, so none of them can come back. -/
theorem decideFrom_yields (wf : g.WellFormed) {candidate : Node → Except CompileError Bool} {good : String → Prop}
    {fault : CompileError → Prop}
    (judged : ∀ {id n}, g.get? id = some n → Yields (candidate n) (fun b => b = true ↔ good id) fault)
    (acyclic : ∀ {id}, good id → ¬TransGen (g.Feeds .signal) id id) {path : List String} {id : String}
    (present : ∃ n, g.get? id = some n) (behind : ∀ v ∈ path, TransGen (g.Feeds .signal) id v) {decided : Table Bool}
    (sound : Decided g good decided) :
    Yields (decideFrom g candidate path id decided) (Decides g good decided id) fault := by
  generalize bound : Search.unseen g.nodes.keys path = measure
  induction measure using Nat.strong_induction_on generalizing path id decided with
  | _ measure ih =>
    obtain ⟨n, found⟩ := present
    rw [decideFrom]
    split
    next known => exact ⟨sound, fun _ member => member, Table.contains_iff.mp known⟩
    next _ =>
    split
    next missing => simp [found] at missing
    next m mFound =>
    cases found.symm.trans mFound
    have outcome := judged found
    split
    next e failed => exact outcome.of_eq_error failed
    next refused =>
      have notGood : ¬good id := by simpa using outcome.of_eq_ok refused
      refine ⟨sound.insert ?_, fun key member => by simp [member], by simp⟩
      exact iff_of_false Bool.false_ne_true (fun passes => notGood (passes id .refl))
    next accepted =>
      have isGood : good id := by simpa using outcome.of_eq_ok accepted
      have fresh : id ∉ path := fun member => acyclic isGood (behind id member)
      rw [dif_neg fresh]
      have smaller := Search.unseen_append_lt (Table.mem_keys_iff.mpr ⟨n, found⟩) fresh
      have sources_iff : ∀ source, source ∈ (n.sourceEndpoints .signal).map Endpoint.node ↔ g.Feeds .signal source id := by
        intro source
        have := Graph.mem_signalSources_iff wf (u := source) (v := id)
        rwa [signalSources, found] at this
      refine Yields.map (Yields.foldlM (SourcesDecided g good decided) ?_ ?_) ?_
      · exact ⟨sound, fun _ member => member, List.forall_mem_nil _⟩
      · intro seen source rest table split walk
        have feeds : g.Feeds .signal source id :=
          (sources_iff source).mp (List.mem_reverse.mp (split ▸ List.mem_append_right seen List.mem_cons_self))
        have nextBehind : ∀ v ∈ path ++ [id], TransGen (g.Feeds .signal) source v := by
          intro v member
          rcases List.mem_append.mp member with outer | last
          · exact .head feeds (behind v outer)
          · exact List.mem_singleton.mp last ▸ .single feeds
        refine (ih _ (bound ▸ smaller) feeds.source_exists nextBehind walk.sound rfl).mono ?_ (fun _ bad => bad)
        exact fun after step => walk.next step
      · intro table walk
        refine ⟨walk.sound.insert ?_, fun key member => by simp [walk.kept key member], by simp⟩
        rw [passes_iff, List.all_eq_true]
        simp only [beq_iff_eq, sources_iff, isGood, true_and]
        refine forall_congr' fun source => imp_congr_right fun feeds => ?_
        obtain ⟨verdict, stored⟩ := Table.mem_keys_iff.mp (walk.decided source (by simpa using (sources_iff source).mpr feeds))
        rw [stored, Option.some.injEq]
        exact walk.sound source verdict stored

/-- Among nodes of the graph the walk along sinks does not fail. -/
theorem cycleMembers_eq_ok {order : List String} (present : ∀ id ∈ order, ∃ n, g.get? id = some n) :
    cycleMembers g order = .ok (Cycles.members order (signalSinks g)) := by
  have checked : order.forM (fun id => discard (g.node id)) = .ok () := by
    refine forM_eq_ok_iff.mpr (fun id member => ?_)
    obtain ⟨n, found⟩ := present id member
    simp only [Graph.node, found]
    rfl
  rw [cycleMembers, checked]
  rfl

/-- Among the pulled nodes the walk along sinks finds exactly the nodes on cycles. -/
theorem mem_members_iff_cycle (wf : g.WellFormed) {order : List String} (pulled : ∀ v, v ∈ order ↔ g.Pulled v)
    {id : String} (member : id ∈ order) :
    id ∈ Cycles.members order (signalSinks g) ↔ TransGen (g.Feeds .signal) id id := by
  have leads_iff : ∀ {a b}, Cycles.Leads order (signalSinks g) a b ↔ g.Feeds .signal a b ∧ b ∈ order := fun {a b} => by
    rw [Cycles.Leads, Graph.mem_signalSinks_iff wf]
  rw [Cycles.mem_members_iff]
  constructor
  · exact fun cycle => TransGen.mono (fun _ _ step => (leads_iff.mp step).1) _ _ cycle
  · intro cycle
    -- Every node of the cycle feeds `id`, so it is pulled with it.
    have listed : ∀ {a}, ReflTransGen (g.Feeds .signal) a id → a ∈ order := by
      intro a behind
      obtain ⟨root, n, found, pulls, rest⟩ := (pulled id).mp member
      exact (pulled a).mpr ⟨root, n, found, pulls, behind.trans rest⟩
    obtain ⟨sink, feeds, chain⟩ := TransGen.head'_iff.mp cycle
    refine .head' (leads_iff.mpr ⟨feeds, listed chain⟩) ?_
    clear feeds
    induction chain using ReflTransGen.head_induction_on with
    | refl => exact .refl
    | head step rest ih => exact .head (leads_iff.mpr ⟨step, listed rest⟩) ih

/-- Some node has a type that is not registered. -/
def Unknown (g : Graph) (r : Registry) : Prop := ∃ id n, g.get? id = some n ∧ r.types.get? n.type = none

theorem isCandidate_yields (wf : g.WellFormed) {order signal : List String} (pulled : ∀ v, v ∈ order ↔ g.Pulled v)
    (walked : ∀ v, v ∈ signal ↔ g.Pulled v) {id : String} {n : Node} (found : g.get? id = some n) :
    Yields (isCandidate r signal (Cycles.members order (signalSinks g)) n) (fun b => b = true ↔ Candidate g r id)
      (fun _ => Unknown g r) := by
  unfold isCandidate Registry.implementation
  cases type : r.types.get? n.type with
  | none => exact ⟨id, n, found, type⟩
  | some i =>
    have own : n.id = id := wf.keyed found
    show (_ = true ↔ _)
    simp only [Bool.and_eq_true, Bool.not_eq_true', List.contains_eq_mem, decide_eq_true_eq, decide_eq_false_iff_not,
      List.isEmpty_eq_false_iff, own, walked]
    constructor
    · rintro ⟨⟨⟨⟨isPure, quiet⟩, isPulled⟩, offCycle⟩, outlets⟩
      refine ⟨n, i, found, type, isPure, quiet, isPulled, outlets, fun cycle => offCycle ?_⟩
      exact (mem_members_iff_cycle wf pulled ((pulled id).mpr isPulled)).mpr cycle
    · rintro ⟨m, j, mFound, jFound, isPure, quiet, isPulled, outlets, offCycle⟩
      cases found.symm.trans mFound
      cases type.symm.trans jFound
      refine ⟨⟨⟨⟨isPure, quiet⟩, isPulled⟩, fun cycle => offCycle ?_⟩, outlets⟩
      exact (mem_members_iff_cycle wf pulled ((pulled id).mpr isPulled)).mp cycle

theorem Candidate.not_cyclic {id : String} (candidate : Candidate g r id) : ¬TransGen (g.Feeds .signal) id id := by
  obtain ⟨_, _, _, _, _, _, _, _, offCycle⟩ := candidate
  exact offCycle

/-- The verdicts on nodes of the graph are right in whichever order they are asked for. -/
theorem decideAll_yields (wf : g.WellFormed) {order signal : List String} (pulled : ∀ v, v ∈ order ↔ g.Pulled v)
    (walked : ∀ v, v ∈ signal ↔ g.Pulled v) {ids : List String} (known : ∀ v ∈ ids, ∃ n, g.get? v = some n) :
    Yields (decideAll g (isCandidate r signal (Cycles.members order (signalSinks g))) ids)
      (SourcesDecided g (Candidate g r) ∅ ids) (fun _ => Unknown g r) := by
  refine Yields.foldlM (SourcesDecided g (Candidate g r) ∅) ?_ ?_
  · exact ⟨fun _ _ found => (Option.some_ne_none _ found.symm).elim, fun _ member => member, List.forall_mem_nil _⟩
  · intro seen id rest table split walk
    have present := known id (split ▸ List.mem_append_right seen List.mem_cons_self)
    refine (decideFrom_yields wf (isCandidate_yields wf pulled walked) Candidate.not_cyclic present (List.forall_mem_nil _)
      walk.sound).mono (fun _ step => walk.next step) (fun _ bad => bad)

/-- The eligible nodes are found, in their order, unless a type is unknown. -/
theorem eligible_yields (wf : g.WellFormed) {order signal : List String} (pulled : ∀ v, v ∈ order ↔ g.Pulled v)
    (walked : ∀ v, v ∈ signal ↔ g.Pulled v) (known : ∀ v ∈ order, ∃ n, g.get? v = some n) :
    Yields (eligible g r order signal) (fun found => found.Sublist order ∧ ∀ v, v ∈ found ↔ Eligible g r v)
      (fun _ => Unknown g r) := by
  rw [eligible, cycleMembers_eq_ok known]
  show Yields (decideAll g (isCandidate r signal (Cycles.members order (signalSinks g))) order >>= _) _ _
  refine Yields.bind (decideAll_yields wf pulled walked known) (fun table walk => ?_)
  refine ⟨List.filter_sublist, fun v => ?_⟩
  rw [List.mem_filter, beq_iff_eq]
  constructor
  · rintro ⟨_, accepted⟩
    exact (walk.sound v true accepted).mp rfl
  · intro isEligible
    obtain ⟨_, _, _, _, _, _, isPulled, _⟩ := isEligible v .refl
    have listed := (pulled v).mpr isPulled
    obtain ⟨verdict, stored⟩ := Table.mem_keys_iff.mp (walk.decided v listed)
    rw [stored, Option.some.injEq]
    exact ⟨listed, (walk.sound v verdict stored).mpr isEligible⟩

end DspPatch.Cold
