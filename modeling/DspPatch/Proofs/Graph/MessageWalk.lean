import DspPatch.Proofs.Graph.FullTraversal
import Mathlib.Order.Bounds.Defs

/-!
The message walk is a breadth-first search (`message_walk_exact`). It fails exactly if messages reach a node with a sink
that does not exist. Otherwise it lists the nodes that messages reach, each once: first the roots in their order, and then
the others by the least number of messages that lead to them from a root.
-/
namespace DspPatch.Graph
open Relation
variable {g : Graph} {roots : List String}

/-- `v` is reached from a root by `k` messages, one after the other. -/
def SentIn (g : Graph) (roots : List String) : Nat → String → Prop
  | 0, v => v ∈ roots
  | k + 1, v => ∃ u, g.SentIn roots k u ∧ g.SendsTo u v

theorem SentIn.exists_root {k : Nat} {v : String} (sent : g.SentIn roots k v) :
    ∃ root ∈ roots, ReflTransGen g.SendsTo root v := by
  induction k generalizing v with
  | zero => exact ⟨v, sent, .refl⟩
  | succ k ih =>
    obtain ⟨u, before, sends⟩ := sent
    obtain ⟨root, member, chain⟩ := ih before
    exact ⟨root, member, chain.tail sends⟩

section Levels
variable {starts first more : List Node} {depth : String → Nat}

/-- A node at depth `k` is reached by `k` messages, since its parent lies one step above it. -/
theorem sentIn_of_levels (keyed : ∀ {key n}, g.get? key = some n → n.id = key)
    (started : List.Forall₂ (fun id n => g.get? id = some n) roots starts)
    (reached : Search.Reached (g.nodes.values.map Node.id) Node.id g.messageTargets starts (first ++ more))
    (top : ∀ n ∈ first, n ∈ starts ∧ depth n.id = 0)
    (levels : Search.Levels (g.nodes.values.map Node.id) Node.id g.messageTargets depth 0 (first ++ more) more)
    {k : Nat} {n : Node} (member : n ∈ first ++ more) (isDeep : depth n.id = k) : g.SentIn roots k n.id := by
  induction k generalizing n with
  | zero =>
    rcases List.mem_append.mp member with inFirst | inMore
    · exact (mem_roots_of_start keyed started (top n inFirst).1).1
    · obtain ⟨_, _, _, below⟩ := levels.parent n inMore
      omega
  | succ k ih =>
    rcases List.mem_append.mp member with inFirst | inMore
    · have isTop := (top n inFirst).2
      omega
    · obtain ⟨parent, listed, ⟨list, targets, isTarget, _⟩, below⟩ := levels.parent n inMore
      have known := (sent_of_reached keyed started reached listed).1
      obtain ⟨sends, _⟩ := ((messageTargets_yields keyed known).of_eq_ok targets).2 n isTarget
      exact ⟨parent.id, ih listed (by omega), sends⟩

/-- No number of messages below its depth leads to a node. -/
theorem depth_le_of_sentIn (keyed : ∀ {key n}, g.get? key = some n → n.id = key)
    (started : List.Forall₂ (fun id n => g.get? id = some n) roots starts)
    (reached : Search.Reached (g.nodes.values.map Node.id) Node.id g.messageTargets starts (first ++ more))
    (isFirst : first.map Node.id = roots.eraseDups) (top : ∀ n ∈ first, depth n.id = 0)
    (levels : Search.Levels (g.nodes.values.map Node.id) Node.id g.messageTargets depth 0 (first ++ more) more)
    {k : Nat} {v : String} (sent : g.SentIn roots k v) : depth v ≤ k := by
  induction k generalizing v with
  | zero =>
    have isRoot : v ∈ first.map Node.id := by
      rw [isFirst]
      exact List.mem_eraseDups.mpr sent
    obtain ⟨n, member, rfl⟩ := List.mem_map.mp isRoot
    exact Nat.le_of_eq (top n member)
  | succ k ih =>
    obtain ⟨u, before, sends⟩ := sent
    have above := ih before
    have listed := ((messageOrder_of_reached keyed started reached).mem_iff u).mpr before.exists_root
    obtain ⟨n, member, rfl⟩ := List.mem_map.mp listed
    obtain ⟨m, _, rfl, leads⟩ := leads_of_sendsTo keyed started reached member sends
    have step := levels.near n member m leads
    omega

end Levels

/-- The order of a message walk begins with the roots and goes by the number of messages. -/
theorem messageTraversal_distances (keyed : ∀ {key n}, g.get? key = some n → n.id = key)
    (present : ∀ root ∈ roots, ∃ n, g.get? root = some n) {order : List String}
    (walked : g.messageTraversal roots = .ok order) :
    roots.eraseDups <+: order ∧ ∃ distance : String → Nat,
      (∀ v ∈ order, IsLeast {k | g.SentIn roots k v} (distance v)) ∧ (order.map distance).Pairwise (· ≤ ·) := by
  obtain ⟨starts, read, walked⟩ := bind_eq_ok_iff.mp walked
  obtain ⟨found, searched, result⟩ := bind_eq_ok_iff.mp walked
  cases result
  have started := (starts_yields present).of_eq_ok read
  have reached := (Search.breadthFirst_yields _ _ _ starts).of_eq_ok searched
  have startIds : starts.map Node.id = roots := by
    have same := map_eq_map_of_forall₂ Node.id (fun id => id) (started.flip.imp (fun n id present => keyed present))
    rwa [List.map_id'] at same
  have inside : ∀ n ∈ starts, n.id ∈ g.nodes.values.map Node.id := fun n member =>
    (mem_ids_iff keyed).mpr ⟨n, (mem_roots_of_start keyed started member).2⟩
  obtain ⟨depth, first, more, rfl, isFirst, top, levels⟩ := Search.breadthFirst_levels searched inside
  rw [startIds] at isFirst
  refine ⟨⟨more.map Node.id, by rw [← isFirst, List.map_append]⟩, depth, fun v listed => ⟨?_, fun k sent => ?_⟩, ?_⟩
  · obtain ⟨n, member, rfl⟩ := List.mem_map.mp listed
    exact sentIn_of_levels keyed started reached top levels member rfl
  · exact depth_le_of_sentIn keyed started reached isFirst (fun n member => (top n member).2) levels sent
  · rw [List.map_map]
    exact levels.ordered

/-- The message walk from existing roots fails if and only if a node that messages reach has a message sink at a node that
    does not exist, and then the error names such a sink. Otherwise it lists the nodes that messages reach, each once and
    by their distance from the roots, which come first. -/
theorem message_walk_exact (keyed : ∀ key n, g.get? key = some n → n.id = key)
    (present : ∀ root ∈ roots, ∃ n, g.get? root = some n) :
    ((∃ e, g.messageTraversal roots = .error e) ↔
      ∃ root ∈ roots, ∃ u v, ReflTransGen g.SendsTo root u ∧ g.SendsTo u v ∧ g.get? v = none) ∧
    (∀ e, g.messageTraversal roots = .error e → ∃ root ∈ roots, ∃ u n, ReflTransGen g.SendsTo root u ∧
      g.get? u = some n ∧ ∃ outlet ∈ n.outletsOf .message, ∃ sink ∈ n.sinksOf outlet.id, g.get? sink.node = none ∧
        e = .graph (.atPortlet u outlet.id) (.missingSink sink.node)) ∧
    ∀ order, g.messageTraversal roots = .ok order → order.Nodup ∧
      (∀ v, v ∈ order ↔ ∃ root ∈ roots, ReflTransGen g.SendsTo root v) ∧ roots.eraseDups <+: order ∧
      ∃ distance : String → Nat, (∀ v ∈ order, IsLeast {k | g.SentIn roots k v} (distance v)) ∧
        (order.map distance).Pairwise (· ≤ ·) := by
  have outcome := messageTraversal_yields (keyed _ _) present
  have named : ∀ e, g.messageTraversal roots = .error e → ∃ root ∈ roots, ∃ u n, ReflTransGen g.SendsTo root u ∧
      g.get? u = some n ∧ ∃ outlet ∈ n.outletsOf .message, ∃ sink ∈ n.sinksOf outlet.id, g.get? sink.node = none ∧
        e = .graph (.atPortlet u outlet.id) (.missingSink sink.node) := by
    intro e failed
    obtain ⟨u, n, ⟨root, member, chain⟩, found, outlet, isOutlet, sink, isSink, missing, rfl⟩ := outcome.of_eq_error failed
    exact ⟨root, member, u, n, chain, found, outlet, isOutlet, sink, isSink, missing, by rw [keyed u n found]⟩
  refine ⟨⟨?_, ?_⟩, named, fun order walked => ?_⟩
  · rintro ⟨e, failed⟩
    obtain ⟨root, member, u, n, chain, found, outlet, isOutlet, sink, isSink, missing, _⟩ := named e failed
    exact ⟨root, member, u, sink.node, chain, ⟨n, found, outlet, isOutlet, sink, isSink, rfl⟩, missing⟩
  · rintro ⟨root, member, u, v, chain, sends, missing⟩
    cases walked : g.messageTraversal roots with
    | error e => exact ⟨e, rfl⟩
    | ok order =>
      have listed := outcome.of_eq_ok walked
      obtain ⟨n, found⟩ := listed.known v ((listed.mem_iff v).mpr ⟨root, member, chain.tail sends⟩)
      cases missing.symm.trans found
  · have listed := outcome.of_eq_ok walked
    exact ⟨listed.nodup, listed.mem_iff, messageTraversal_distances (keyed _ _) present walked⟩

/-- Relays in a ring with a shortcut and a sink that is recorded twice, and a probe that sends to a node that does not
    exist. -/
def relayRing : Graph :=
  let relay (id : String) (sinks : List Endpoint) : Node :=
    { Node.bare id "relay" with
      inlets := .ofList [("0", ⟨"0", .message⟩)], outlets := .ofList [("0", ⟨"0", .message⟩)]
      sinks := .ofList [("0", sinks)] }
  [relay "a" [⟨"b", "0"⟩, ⟨"c", "0"⟩, ⟨"b", "0"⟩], relay "b" [⟨"d", "0"⟩], relay "c" [⟨"a", "0"⟩, ⟨"e", "0"⟩],
    relay "d" [⟨"e", "0"⟩], relay "e" [⟨"a", "0"⟩], relay "probe" [⟨"ghost", "0"⟩]].foldl insert .empty

/-- From the root `e`, which is given twice, and the root `b` the ring is listed by distance: `a` is one message away. The
    walk that comes to the probe fails. -/
theorem message_walk_exact_relayRing :
    relayRing.nodes.entries.all (fun entry => entry.2.id == entry.1) = true ∧
    relayRing.messageTraversal ["e", "b", "e"] = .ok ["e", "b", "a", "d", "c"] ∧
    IsLeast {k | relayRing.SentIn ["e", "b", "e"] k "a"} 1 ∧
    ∃ e, relayRing.messageTraversal ["a", "probe"] = .error e := by
  have own : relayRing.nodes.entries.all (fun entry => entry.2.id == entry.1) = true := by decide +kernel
  have keyed : ∀ key n, relayRing.get? key = some n → n.id = key := by
    intro key n found
    simpa using List.all_eq_true.mp own (key, n) (Table.get?_eq_some_iff.mp found)
  have present : ∀ roots : List String, roots.all (fun id => (relayRing.get? id).isSome) = true →
      ∀ root ∈ roots, ∃ n, relayRing.get? root = some n := by
    intro roots all root member
    exact Option.isSome_iff_exists.mp (List.all_eq_true.mp all root member)
  have walked : relayRing.messageTraversal ["e", "b", "e"] = .ok ["e", "b", "a", "d", "c"] := by decide +kernel
  refine ⟨own, walked, ?_, ?_⟩
  · obtain ⟨_, _, listed⟩ := message_walk_exact keyed (present ["e", "b", "e"] (by decide +kernel))
    obtain ⟨_, _, _, distance, least, _⟩ := listed _ walked
    have isLeast := least "a" (by decide)
    have sends : relayRing.SendsTo "e" "a" :=
      ⟨_, rfl, ⟨"0", .message⟩, by decide +kernel, ⟨"a", "0"⟩, by decide +kernel, rfl⟩
    have most : distance "a" ≤ 1 := isLeast.2 ⟨"e", List.mem_cons_self, sends⟩
    have positive : distance "a" ≠ 0 := by
      intro isZero
      rw [isZero] at isLeast
      exact absurd (show "a" ∈ ["e", "b", "e"] from isLeast.1) (by decide)
    rwa [show distance "a" = 1 by omega] at isLeast
  · obtain ⟨fails, _, _⟩ := message_walk_exact keyed (present ["a", "probe"] (by decide +kernel))
    refine fails.mpr ⟨"probe", by decide, "probe", "ghost", .refl, ?_, by decide +kernel⟩
    exact ⟨_, rfl, ⟨"0", .message⟩, by decide +kernel, ⟨"ghost", "0"⟩, by decide +kernel, rfl⟩

end DspPatch.Graph
