import DspPatch.Proofs.Cold.Eligibility
import DspPatch.Proofs.Order

/-!
Components of the eligible nodes. Two eligible nodes are together if signal connections between eligible nodes join them,
in either direction. The components that are found are exactly the classes of this relation, by their first nodes in the
order in which nodes run. A class takes its signals from its own members only, and at least one connection leaves it.
-/
namespace DspPatch.Cold
open Relation
variable {g : Graph} {r : Registry} {eligible order : List String}

/-- A signal connection joins two nodes that satisfy `member`. -/
def Linked (g : Graph) (member : String → Prop) (a b : String) : Prop :=
  member a ∧ member b ∧ (g.Feeds .signal a b ∨ g.Feeds .signal b a)

/-- Signal connections between nodes that satisfy `member` join the two nodes, over any number of steps. -/
def Together (g : Graph) (member : String → Prop) (a b : String) : Prop :=
  member a ∧ ReflTransGen (Linked g member) a b

theorem Together.symm {member : String → Prop} {a b : String} (together : Together g member a b) :
    Together g member b a := by
  obtain ⟨first, chain⟩ := together
  induction chain with
  | refl => exact ⟨first, .refl⟩
  | tail _ step ih =>
    obtain ⟨yMember, zMember, feeds⟩ := step
    exact ⟨zMember, .head ⟨zMember, yMember, feeds.symm⟩ ih.2⟩

theorem Together.trans {member : String → Prop} {a b c : String} (first : Together g member a b)
    (second : Together g member b c) : Together g member a c :=
  ⟨first.1, first.2.trans second.2⟩

theorem Together.right {member : String → Prop} {a b : String} (together : Together g member a b) : member b :=
  together.symm.1

theorem Together.link {member : String → Prop} {a b : String} (aMember : member a) (bMember : member b)
    (feeds : g.Feeds .signal a b ∨ g.Feeds .signal b a) : Together g member a b :=
  ⟨aMember, .single ⟨aMember, bMember, feeds⟩⟩

/-- The search for a component finds the nodes that are together with its first node. -/
theorem mem_component_iff (wf : g.WellFormed) {member : String → Prop} (exact : ∀ v, v ∈ eligible ↔ member v)
    {first v : String} : v ∈ component g eligible first ↔ Together g member first v := by
  simp only [component, Search.mem_reach_iff, List.mem_singleton, exists_eq_left, List.mem_append,
    Graph.mem_signalSinks_iff wf, Graph.mem_signalSources_iff wf, exact, Together]
  refine and_congr_right fun isMember => ⟨fun chain => ?_, fun chain => ?_⟩
  · induction chain with
    | refl => exact .refl
    | @tail b c earlier step ih =>
      have bMember : member b := Together.right ⟨isMember, ih⟩
      exact ih.tail ⟨bMember, step.2, step.1⟩
  · exact ReflTransGen.mono (fun _ _ step => ⟨step.2.2, step.2.1⟩) _ _ chain

/-- The first nodes of the components among the nodes looked at. -/
structure Firsts (g : Graph) (member : String → Prop) (order firsts : List String) : Prop where
  sublist : firsts.Sublist order
  inside : ∀ f ∈ firsts, member f
  covered : ∀ a ∈ order, member a → ∃ f ∈ firsts, Together g member f a
  first : ∀ f ∈ firsts, ∀ a, [a, f].Sublist order → ¬Together g member f a

/-- A node whose component is known adds no first node. -/
theorem Firsts.skip {member : String → Prop} {firsts : List String} {id : String}
    (known : Firsts g member order firsts) (fresh : id ∉ order) (old : member id → ∃ f ∈ firsts, Together g member f id) :
    Firsts g member (order ++ [id]) firsts := by
  refine ⟨known.sublist.trans (List.sublist_append_left _ _), known.inside, fun a listed isMember => ?_, ?_⟩
  · rcases List.mem_append.mp listed with earlier | last
    · exact known.covered a earlier isMember
    · rw [List.mem_singleton.mp last] at isMember ⊢
      exact old isMember
  · intro f listed a before
    rcases pair_sublist_concat_iff.mp before with before | ⟨_, rfl⟩
    · exact known.first f listed a before
    · exact absurd (known.sublist.subset listed) fresh

/-- A node whose component is new is the first node of it. -/
theorem Firsts.add {member : String → Prop} {firsts : List String} {id : String}
    (known : Firsts g member order firsts) (fresh : id ∉ order) (isMember : member id)
    (new : ∀ f ∈ firsts, ¬Together g member f id) : Firsts g member (order ++ [id]) (firsts ++ [id]) := by
  refine ⟨known.sublist.append (List.Sublist.refl [id]), fun f listed => ?_, fun a listed aMember => ?_, ?_⟩
  · rcases List.mem_append.mp listed with earlier | last
    · exact known.inside f earlier
    · exact List.mem_singleton.mp last ▸ isMember
  · rcases List.mem_append.mp listed with earlier | last
    · obtain ⟨f, old, together⟩ := known.covered a earlier aMember
      exact ⟨f, List.mem_append_left _ old, together⟩
    · rw [List.mem_singleton.mp last]
      exact ⟨id, by simp, isMember, .refl⟩
  · intro f listed a before together
    rcases pair_sublist_concat_iff.mp before with before | ⟨earlier, rfl⟩
    · rcases List.mem_append.mp listed with old | last
      · exact known.first f old a before together
      · rw [List.mem_singleton.mp last] at before
        exact fresh (before.subset (by simp))
    · -- An earlier member of the component would have made it known.
      obtain ⟨f₀, old, joined⟩ := known.covered a earlier together.right
      exact new f₀ old (joined.trans together.symm)

/-- The components are the classes of eligible nodes, by their first nodes. -/
theorem components_eq (wf : g.WellFormed) {member : String → Prop} (exact : ∀ v, v ∈ eligible ↔ member v)
    (nodup : order.Nodup) :
    ∃ firsts, components g eligible order = firsts.map (component g eligible) ∧ Firsts g member order firsts := by
  unfold components
  induction order using List.reverseRecOn with
  | nil => exact ⟨[], rfl, .slnil, List.forall_mem_nil _, List.forall_mem_nil _, List.forall_mem_nil _⟩
  | append_singleton done id ih =>
    have fresh : id ∉ done := fun member => (List.nodup_append.mp nodup).2.2 id member id (by simp) rfl
    obtain ⟨firsts, result, known⟩ := ih (List.nodup_append.mp nodup).1
    rw [List.foldl_append, List.foldl_cons, List.foldl_nil, result]
    have seen_iff : (firsts.map (component g eligible)).any (fun members => members.contains id) = true ↔
        ∃ f ∈ firsts, Together g member f id := by
      simp [mem_component_iff wf exact]
    by_cases isMember : member id
    · by_cases seen : ∃ f ∈ firsts, Together g member f id
      · refine ⟨firsts, ?_, known.skip fresh (fun _ => seen)⟩
        rw [if_neg]
        rw [seen_iff.mpr seen, Bool.not_true, Bool.and_false]
        exact Bool.false_ne_true
      · refine ⟨firsts ++ [id], ?_, known.add fresh isMember (fun f listed together => seen ⟨f, listed, together⟩)⟩
        rw [if_pos, List.map_append, List.map_singleton]
        rw [Bool.and_eq_true, List.contains_iff_mem, Bool.not_eq_true', Bool.eq_false_iff, ne_eq, seen_iff]
        exact ⟨(exact id).mpr isMember, seen⟩
    · refine ⟨firsts, ?_, known.skip fresh (fun eligible => absurd eligible isMember)⟩
      rw [if_neg]
      simp [exact, isMember]

theorem mem_leaving_iff (wf : g.WellFormed) {traversal members : List String} {c : Connection} :
    c ∈ leaving g traversal members ↔
      c.source.node ∈ traversal ∧ g.Connects .signal c ∧ c.sink.node ∉ members := by
  simp only [leaving, List.mem_flatMap]
  constructor
  · rintro ⟨id, listed, inside⟩
    cases found : g.get? id with
    | none => simp [found] at inside
    | some n =>
      rw [found] at inside
      obtain ⟨p, outlet, outside⟩ := List.mem_flatMap.mp inside
      obtain ⟨sink, sinkListed, rfl⟩ := List.mem_map.mp outside
      obtain ⟨declared, kind⟩ := (Graph.mem_outletsOf_iff wf found).mp outlet
      obtain ⟨recorded, away⟩ := List.mem_filter.mp sinkListed
      exact ⟨listed, ⟨n, p, found, declared, kind, recorded⟩, by simpa using away⟩
  · obtain ⟨⟨u, outlet⟩, sink⟩ := c
    rintro ⟨listed, ⟨n, p, found, declared, kind, recorded⟩, away⟩
    refine ⟨u, listed, ?_⟩
    cases wf.outletId found declared
    dsimp only at found
    rw [found]
    refine List.mem_flatMap.mpr ⟨p, (Graph.mem_outletsOf_iff wf found).mpr ⟨declared, kind⟩, ?_⟩
    exact List.mem_map.mpr ⟨sink, List.mem_filter.mpr ⟨recorded, by simpa using away⟩, rfl⟩

/-- Sources of eligible nodes are eligible. -/
theorem Eligible.source {u v : String} (eligible : Eligible g r v) (feeds : g.Feeds .signal u v) : Eligible g r u :=
  (passes_iff.mp eligible).2 u feeds

theorem Eligible.pulled {v : String} (eligible : Eligible g r v) : g.Pulled v := by
  obtain ⟨_, _, _, _, _, _, isPulled, _⟩ := eligible v .refl
  exact isPulled

theorem Eligible.not_pulling {v : String} (eligible : Eligible g r v) {n : Node} (found : g.get? v = some n) :
    n.isPullingSignal = false := by
  obtain ⟨m, _, mFound, _, _, quiet, _⟩ := eligible v .refl
  cases found.symm.trans mFound
  exact quiet

/-- On the way to a pulling node the signals of an eligible node leave its component. -/
theorem Eligible.exists_leaving {v : String} (eligible : Eligible g r v) :
    ∃ x y, Together g (Eligible g r) v x ∧ g.Feeds .signal x y ∧ ¬Eligible g r y := by
  obtain ⟨root, n, found, pulls, chain⟩ := eligible.pulled
  induction chain using ReflTransGen.head_induction_on with
  | refl => simp [eligible.not_pulling found] at pulls
  | @head a b feeds rest ih =>
    by_cases next : Eligible g r b
    · obtain ⟨x, y, together, leaves, outside⟩ := ih next
      exact ⟨x, y, (Together.link eligible next (.inl feeds)).trans together, leaves, outside⟩
    · exact ⟨a, b, ⟨eligible, .refl⟩, feeds, next⟩

end DspPatch.Cold
