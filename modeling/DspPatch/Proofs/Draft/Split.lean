import DspPatch.Draft.Partition
import DspPatch.Proofs.Build
import DspPatch.Proofs.Cold.Components

/-!
The split of the pulled nodes. The hot group holds those that are not eligible, and there is one cold group for each
component of eligible nodes, numbered by first members. No cold node takes a signal from outside its group, and every cold
group has an output.
-/
namespace DspPatch.Draft
open Build Relation
variable {g : Graph} {r : Registry} {order : List String}

/-- The cold group of the component of `first`. -/
structure ColdGroupOf (g : Graph) (r : Registry) (order : List String) (first : String) (c : ColdGroup) : Prop where
  sublist : c.group.traversal.Sublist order
  mem_iff : ∀ v, v ∈ c.group.traversal ↔ Cold.Together g (Cold.Eligible g r) first v
  head : c.group.traversal.head? = some first
  connections : ∀ k, k ∈ c.sinkConnections ↔
    g.Connects .signal k ∧ k.source.node ∈ c.group.traversal ∧ k.sink.node ∉ c.group.traversal
  outNodes : ∀ v, v ∈ c.group.outNodes ↔ ∃ k ∈ c.sinkConnections, k.source.node = v

namespace ColdGroupOf
variable {first : String} {c : ColdGroup}

theorem eligible (group : ColdGroupOf g r order first c) {v : String} (member : v ∈ c.group.traversal) :
    Cold.Eligible g r v :=
  ((group.mem_iff v).mp member).right

theorem source_mem (group : ColdGroupOf g r order first c) {u v : String} (member : v ∈ c.group.traversal)
    (feeds : g.Feeds .signal u v) : u ∈ c.group.traversal := by
  have isEligible := group.eligible member
  refine (group.mem_iff u).mpr (((group.mem_iff v).mp member).trans ?_)
  exact Cold.Together.link isEligible (isEligible.source feeds) (.inr feeds)

/-- A connection that leaves the group ends at a node that is not eligible. -/
theorem sink_not_eligible (group : ColdGroupOf g r order first c) {k : Connection} (leaving : k ∈ c.sinkConnections) :
    ¬Cold.Eligible g r k.sink.node := by
  obtain ⟨connects, inside, outside⟩ := (group.connections k).mp leaving
  intro sinkEligible
  refine outside ((group.mem_iff _).mpr (((group.mem_iff _).mp inside).trans ?_))
  exact Cold.Together.link (group.eligible inside) sinkEligible (.inl ⟨_, _, connects⟩)

theorem outNodes_ne_nil (group : ColdGroupOf g r order first c) : c.group.outNodes ≠ [] := by
  have firstMember : first ∈ c.group.traversal := List.mem_of_mem_head? (group.head ▸ Option.mem_some_self first)
  obtain ⟨x, y, together, ⟨outlet, inlet, connects⟩, outside⟩ := (group.eligible firstMember).exists_leaving
  have leaving : (⟨⟨x, outlet⟩, ⟨y, inlet⟩⟩ : Connection) ∈ c.sinkConnections :=
    (group.connections _).mpr ⟨connects, (group.mem_iff x).mpr together, fun member => outside (group.eligible member)⟩
  exact List.ne_nil_of_mem ((group.outNodes x).mpr ⟨_, leaving, rfl⟩)

theorem outNode_mem (group : ColdGroupOf g r order first c) {v : String} (out : v ∈ c.group.outNodes) :
    v ∈ c.group.traversal := by
  obtain ⟨k, leaving, rfl⟩ := (group.outNodes v).mp out
  exact ((group.connections k).mp leaving).2.1

end ColdGroupOf

/-- The group that is made of a component. -/
theorem coldGroupOf_group (wf : g.WellFormed) (run : g.RunOrder order) {eligible : List String}
    (exact : ∀ v, v ∈ eligible ↔ Cold.Eligible g r v) {first : String}
    (isFirst : ∀ a, [a, first].Sublist order → ¬Cold.Together g (Cold.Eligible g r) first a)
    (isEligible : Cold.Eligible g r first) (id : Nat) (function : String) :
    ColdGroupOf g r order first ⟨id, (Cold.group g order (Cold.component g eligible first)).1,
      (Cold.group g order (Cold.component g eligible first)).2, function⟩ := by
  have members : ∀ v, v ∈ Cold.component g eligible first ↔ Cold.Together g (Cold.Eligible g r) first v := fun v =>
    Cold.mem_component_iff wf exact
  have mem_iff : ∀ v, v ∈ order.filter (fun id => (Cold.component g eligible first).contains id) ↔
      Cold.Together g (Cold.Eligible g r) first v := by
    intro v
    rw [List.mem_filter, List.contains_iff_mem, members]
    exact ⟨fun both => both.2, fun together => ⟨(run.mem_iff v).mpr together.right.pulled, together⟩⟩
  refine ⟨List.filter_sublist, mem_iff, ?_, fun k => ?_, fun v => ?_⟩
  · refine head?_eq_of_first ((mem_iff first).mpr ⟨isEligible, .refl⟩) (fun b before => ?_)
    obtain ⟨inOrder, inside, _⟩ := pair_sublist_filter_iff.mp before
    exact isFirst b inOrder ((members b).mp (List.contains_iff_mem.mp inside))
  · have inside_iff := mem_iff k.source.node
    have outside_iff := mem_iff k.sink.node
    show k ∈ Cold.leaving g _ _ ↔ _
    rw [Cold.mem_leaving_iff wf, members, ← outside_iff]
    exact ⟨fun ⟨a, b, c⟩ => ⟨b, a, c⟩, fun ⟨b, a, c⟩ => ⟨a, b, c⟩⟩
  · show v ∈ ((Cold.leaving g _ _).map (fun k => k.source.node)).eraseDups ↔ _
    rw [List.mem_eraseDups, List.mem_map]
    rfl

/-- The partition before fusion. -/
structure SplitOf (g : Graph) (r : Registry) (full order firsts : List String) (p : Partition) : Prop where
  whole : p.full = full
  hotSublist : p.hot.traversal.Sublist order
  hot_iff : ∀ v, v ∈ p.hot.traversal ↔ g.Pulled v ∧ ¬Cold.Eligible g r v
  hotOut_iff : ∀ v, v ∈ p.hot.outNodes ↔ v ∈ p.hot.traversal ∧ v ∈ pulling g full
  ordered : Cold.Firsts g (Cold.Eligible g r) order firsts
  cold : List.Forall₂ (ColdGroupOf g r order) firsts p.cold

/-- A cold group with its number and the name of its function. -/
def NamedGroup (s : Symbols) (entry : (Group × List Connection) × Nat) (c : ColdGroup) : Prop :=
  c = ⟨entry.2, entry.1.1, entry.1.2, c.function⟩ ∧ s.at? (.coldGroup (toString entry.2)) = some c.function

theorem nameColdGroups_ends {w : Workspace} (groups : List (Group × List Connection)) :
    Ends (nameColdGroups groups) w
      (fun cold after => after.draft = w.draft ∧ w.symbols.Grows after.symbols ∧
        List.Forall₂ (NamedGroup after.symbols) groups.zipIdx cold)
      (fun _ => False) := by
  refine Ends.mapM (fun done cold now => now.draft = w.draft ∧ w.symbols.Grows now.symbols ∧
    List.Forall₂ (NamedGroup now.symbols) done cold) ⟨rfl, .refl _, .nil⟩ ?_
  rintro done ⟨⟨group, connections⟩, i⟩ rest cold now split ⟨same, grows, related⟩
  have assigns := now.symbols.attachColdGroup_assigns i
  refine Ends.name_bind ?_
  refine ⟨same, grows.trans assigns.grows, ?_⟩
  refine List.rel_append (related.imp (fun entry c both => ⟨both.1, assigns.grows.kept both.2⟩)) ?_
  exact .cons ⟨rfl, assigns.at?_eq⟩ .nil

/-- Cold groups are numbered in order, and the names of their functions are known. -/
structure Numbered (s : Symbols) (cold : List ColdGroup) : Prop where
  ids : cold.map ColdGroup.id = List.range cold.length
  named : ∀ c ∈ cold, s.at? (.coldGroup (toString c.id)) = some c.function

theorem Numbered.mono {s t : Symbols} {cold : List ColdGroup} (numbered : Numbered s cold) (grows : s.Grows t) :
    Numbered t cold :=
  ⟨numbered.ids, fun c member => grows.kept (numbered.named c member)⟩

theorem numbered_of_namedGroup {s : Symbols} {groups : List (Group × List Connection)} {cold : List ColdGroup}
    (related : List.Forall₂ (NamedGroup s) groups.zipIdx cold) : Numbered s cold := by
  have ids := map_eq_map_of_forall₂ Prod.snd ColdGroup.id
    (related.imp (fun entry c named => (congrArg ColdGroup.id named.1).symm))
  have count : cold.length = groups.length := by rw [← related.length_eq, List.length_zipIdx]
  constructor
  · rw [← ids, count, List.range_eq_range', ← List.zipIdx_map_snd 0 groups]
  · intro c member
    obtain ⟨entry, _, equal, stored⟩ := exists_left_of_forall₂ related member
    rw [equal]
    exact stored

/-- The cold groups are the components of the eligible nodes. -/
def FormedFrom (g : Graph) (r : Registry) (full signal : List String) (cold : List ColdGroup) : Prop :=
  let order := full.filter (fun id => signal.contains id)
  ∃ eligible, Cold.eligible g r order signal = .ok eligible ∧
    cold.map ColdGroup.group = (Cold.components g eligible order).map (fun members => (Cold.group g order members).1)

theorem FormedFrom.subset {full signal : List String} {cold : List ColdGroup} (formed : FormedFrom g r full signal cold)
    {c : ColdGroup} (member : c ∈ cold) : c.group.traversal ⊆ full := by
  obtain ⟨eligible, _, groups⟩ := formed
  have listed : c.group ∈ cold.map ColdGroup.group := List.mem_map_of_mem member
  rw [groups] at listed
  obtain ⟨members, _, same⟩ := List.mem_map.mp listed
  rw [← same]
  exact (List.filter_sublist.trans List.filter_sublist).subset

/-- The cold groups are the components of the eligible nodes, with the connections that leave them, and the other nodes
    are hot. -/
def SplitFrom (g : Graph) (r : Registry) (full signal : List String) (p : Partition) : Prop :=
  let order := full.filter (fun id => signal.contains id)
  ∃ eligible, Cold.eligible g r order signal = .ok eligible ∧
    p.cold.map (fun c => (c.group, c.sinkConnections)) = (Cold.components g eligible order).map (Cold.group g order) ∧
    p.hot.traversal = order.filter (fun id => !((Cold.components g eligible order).any (fun members => members.contains id)))

theorem SplitFrom.formed {full signal : List String} {p : Partition} (split : SplitFrom g r full signal p) :
    FormedFrom g r full signal p.cold := by
  obtain ⟨eligible, found, groups, _⟩ := split
  refine ⟨eligible, found, ?_⟩
  have firsts := congrArg (List.map Prod.fst) groups
  rwa [List.map_map, List.map_map] at firsts

theorem groups_of_namedGroup {s : Symbols} {groups : List (Group × List Connection)} {cold : List ColdGroup}
    (related : List.Forall₂ (NamedGroup s) groups.zipIdx cold) :
    cold.map (fun c => (c.group, c.sinkConnections)) = groups := by
  have same := map_eq_map_of_forall₂ Prod.fst (fun c : ColdGroup => (c.group, c.sinkConnections))
    (related.imp (fun entry c named => (congrArg (fun c : ColdGroup => (c.group, c.sinkConnections)) named.1).symm))
  rw [← same, List.zipIdx_map_fst]

/-- The signal walk has found the pulled nodes of a well-formed graph, and the traversal runs them in order. -/
structure Walked (g : Graph) (full signal : List String) : Prop where
  wf : g.WellFormed
  pulled : ∀ v, v ∈ signal ↔ g.Pulled v
  run : g.RunOrder (full.filter (fun id => signal.contains id))

/-- The nodes outside the components are hot, and each component makes a cold group. -/
theorem splitOf_components {full signal : List String} (walked : Walked g full signal) {eligible : List String}
    (exact : ∀ v, v ∈ eligible ↔ Cold.Eligible g r v) {s : Symbols} {cold : List ColdGroup}
    (order_eq : order = full.filter (fun id => signal.contains id))
    (related : List.Forall₂ (NamedGroup s)
      ((Cold.components g eligible order).map (Cold.group g order)).zipIdx cold) :
    let hot := order.filter (fun id => !((Cold.components g eligible order).any (fun members => members.contains id)))
    ∃ firsts, SplitOf g r full order firsts ⟨full, ⟨hot, hot.filter (fun id => (pulling g full).contains id)⟩, cold⟩ := by
  have wf := walked.wf
  have run : g.RunOrder order := order_eq ▸ walked.run
  obtain ⟨firsts, components, ordered⟩ := Cold.components_eq wf exact run.nodup
  have covered : ∀ v, (Cold.components g eligible order).any (fun members => members.contains v) = true ↔
      Cold.Eligible g r v := by
    intro v
    rw [components]
    simp only [List.any_map, List.any_eq_true, Function.comp_apply, List.contains_iff_mem, Cold.mem_component_iff wf exact]
    constructor
    · rintro ⟨f, _, together⟩
      exact together.right
    · intro isEligible
      exact ordered.covered v ((run.mem_iff v).mpr isEligible.pulled) isEligible
  refine ⟨firsts, rfl, List.filter_sublist, fun v => ?_, fun v => ?_, ordered, ?_⟩
  · rw [List.mem_filter, run.mem_iff, Bool.not_eq_true', Bool.eq_false_iff, ne_eq, covered]
  · rw [List.mem_filter, List.contains_iff_mem]
  · rw [components, List.map_map, List.zipIdx_map, List.forall₂_map_left_iff] at related
    have isFirst : ∀ entry ∈ firsts.zipIdx, entry.1 ∈ firsts := fun entry member =>
      List.fst_mem_of_mem_zipIdx member
    have groups : List.Forall₂ (fun entry c => ColdGroupOf g r order entry.1 c) firsts.zipIdx cold := by
      refine List.Forall₂.imp ?_ ((List.forall₂_and_left _ _).mpr ⟨isFirst, related⟩)
      rintro ⟨f, i⟩ c ⟨listed, equal, _⟩
      rw [equal]
      exact coldGroupOf_group wf run exact (ordered.first f listed) (ordered.inside f listed) i c.function
    rwa [← List.forall₂_map_left_iff, List.zipIdx_map_fst] at groups

/-- The pulled nodes are split into the hot group and the components of eligible nodes, unless a type is unknown. -/
theorem splitGroups_ends {input : BuildInput} {w : Workspace} (full signal : List String) :
    Ends (splitGroups input full signal) w
      (fun p after => after.draft = w.draft ∧ w.symbols.Grows after.symbols ∧ Numbered after.symbols p.cold ∧
        SplitFrom input.graph input.registry full signal p ∧
        (Walked input.graph full signal → ∃ firsts,
          SplitOf input.graph input.registry full (full.filter (fun id => signal.contains id)) firsts p))
      (fun _ => Walked input.graph full signal → Cold.Unknown input.graph input.registry) := by
  refine Ends.lift_bind ((Yields.self _).mono (fun eligible found => ?_) (fun e failed walked => ?_))
  · refine Ends.bind ((nameColdGroups_ends _).mono (fun _ _ post => post) (fun _ bad => bad.elim)) ?_
    rintro cold after ⟨same, grows, related⟩
    have groups := groups_of_namedGroup related
    refine Ends.pure ⟨same, grows, numbered_of_namedGroup related, ⟨eligible, found, groups, rfl⟩, fun walked => ?_⟩
    obtain ⟨_, exact⟩ := (Cold.eligible_yields walked.wf walked.run.mem_iff walked.pulled walked.run.known).of_eq_ok found
    exact splitOf_components walked exact rfl related
  · exact (Cold.eligible_yields walked.wf walked.run.mem_iff walked.pulled walked.run.known).of_eq_error failed

namespace SplitOf
variable {full firsts : List String} {p : Partition}

theorem coldGroup (split : SplitOf g r full order firsts p) {c : ColdGroup} (member : c ∈ p.cold) :
    ∃ first ∈ firsts, ColdGroupOf g r order first c := by
  exact exists_left_of_forall₂ split.cold member

theorem exists_coldGroup (split : SplitOf g r full order firsts p) (run : g.RunOrder order) {v : String}
    (eligible : Cold.Eligible g r v) : ∃ c ∈ p.cold, v ∈ c.group.traversal := by
  obtain ⟨first, listed, together⟩ := split.ordered.covered v ((run.mem_iff v).mpr eligible.pulled) eligible
  obtain ⟨c, member, group⟩ := exists_right_of_forall₂ split.cold listed
  exact ⟨c, member, (group.mem_iff v).mpr together⟩

/-- Different cold groups have no member in common. -/
theorem apart (split : SplitOf g r full order firsts p) :
    p.cold.Pairwise (fun c d => ∀ v, v ∈ c.group.traversal → v ∉ d.group.traversal) := by
  have firstsApart : firsts.Pairwise (fun a b => ¬Cold.Together g (Cold.Eligible g r) b a) := by
    rw [List.pairwise_iff_forall_sublist]
    intro a b before
    exact split.ordered.first b (before.subset (by simp)) a (before.trans split.ordered.sublist)
  refine pairwise_of_forall₂ split.cold firstsApart ?_
  intro a b c d cGroup dGroup away v inC inD
  exact away (((dGroup.mem_iff v).mp inD).trans ((cGroup.mem_iff v).mp inC).symm)

theorem group_sublist (split : SplitOf g r full order firsts p) {group : Group} (member : group ∈ p.groups) :
    group.traversal.Sublist order := by
  rcases List.mem_cons.mp member with rfl | cold
  · exact split.hotSublist
  · obtain ⟨c, listed, rfl⟩ := List.mem_map.mp cold
    obtain ⟨_, _, group⟩ := split.coldGroup listed
    exact group.sublist

/-- The groups hold exactly the pulled nodes. -/
theorem mem_members_iff (split : SplitOf g r full order firsts p) (run : g.RunOrder order) (v : String) :
    v ∈ p.members ↔ g.Pulled v := by
  simp only [Partition.members, Partition.groups, List.flatMap_cons, List.mem_append, split.hot_iff, List.mem_flatMap,
    List.mem_map]
  constructor
  · rintro (⟨pulled, _⟩ | ⟨_, ⟨c, listed, rfl⟩, member⟩)
    · exact pulled
    · obtain ⟨_, _, group⟩ := split.coldGroup listed
      exact (group.eligible member).pulled
  · intro pulled
    by_cases eligible : Cold.Eligible g r v
    · obtain ⟨c, listed, member⟩ := split.exists_coldGroup run eligible
      exact .inr ⟨c.group, ⟨c, listed, rfl⟩, member⟩
    · exact .inl ⟨pulled, eligible⟩

theorem nodup_members (split : SplitOf g r full order firsts p) (run : g.RunOrder order) : p.members.Nodup := by
  rw [Partition.members, List.nodup_flatMap]
  refine ⟨fun group member => run.nodup.sublist (split.group_sublist member), ?_⟩
  rw [Partition.groups, List.pairwise_cons, List.pairwise_map]
  refine ⟨fun group member => ?_, split.apart.imp (fun away v inC inD => away v inC inD)⟩
  obtain ⟨c, listed, rfl⟩ := List.mem_map.mp member
  obtain ⟨_, _, group⟩ := split.coldGroup listed
  intro v inHot inCold
  exact ((split.hot_iff v).mp inHot).2 (group.eligible inCold)

end SplitOf
end DspPatch.Draft
