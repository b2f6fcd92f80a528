import DspPatch.Proofs.Graph.FullTraversal
import DspPatch.Proofs.Order

/-!
What a graph computes frame by frame, for any meaning of its nodes. A node that runs reads its signal inlets, writes the
variables of its outlets and moves to its next state. Nodes with one sink that runs later can be left out of the run and
computed where they are read: along a chain of such nodes no source is written between the place of the node and the
place where its value is used (`Inlinable.source_outside`), so all other nodes get the same values (`run_inlined`).
-/
namespace DspPatch
open Relation

/-- A meaning of the nodes: signals carry values in `V`, and every node has a state in `S`. -/
structure Interpretation (V S : Type) where
  /-- The value at an inlet, from the values of the outlets that feed it. -/
  mix : List V → V
  /-- The values at the outlets and the next state of a node, from the values at its signal inlets and its state. -/
  step : String → List (String × V) → S → (String → V) × S

/-- The variables of all outlets and the states of all nodes. -/
structure Store (V S : Type) where
  outlets : Endpoint → V
  states : String → S

namespace Interpretation
variable {V S : Type} (I : Interpretation V S) (g : Graph)

/-- The values at the signal inlets of a node, where `read` tells the values of outlets. -/
def inletValues (read : Endpoint → V) (id : String) : List (String × V) :=
  match g.get? id with
  | some n => (n.inletsOf .signal).map (fun i => (i.id, I.mix ((n.sourcesOf i.id).map read)))
  | none => []

/-- A node runs. -/
def runNode (read : Store V S → Endpoint → V) (store : Store V S) (id : String) : Store V S where
  outlets e := if e.node = id then (I.step id (I.inletValues g (read store) id) (store.states id)).1 e.portlet
    else store.outlets e
  states other := if other = id then (I.step id (I.inletValues g (read store) id) (store.states id)).2
    else store.states other

/-- The nodes of a traversal run one after the other. -/
def run (read : Store V S → Endpoint → V) (store : Store V S) (traversal : List String) : Store V S :=
  traversal.foldl (I.runNode g read) store

/-- Traversals run one after the other; a number of frames is a traversal repeated. -/
def runAll (read : Store V S → Endpoint → V) (store : Store V S) (schedule : List (List String)) : Store V S :=
  schedule.foldl (I.run g read) store

/-- The value of an outlet, where the nodes in `inlined` are computed on the spot, each at most once on the way up. -/
def readInlined (store : Store V S) (inlined : List String) (e : Endpoint) : V :=
  if e.node ∈ inlined then
    (I.step e.node (I.inletValues g (fun source => readInlined store (inlined.erase e.node) source) e.node)
      (store.states e.node)).1 e.portlet
  else store.outlets e
termination_by inlined.length
decreasing_by
  rename_i member
  have := List.length_pos_of_mem member
  rw [List.length_erase_of_mem member]
  omega

/-- `read` computes the nodes in `inlined` on the spot, from their own inlets, and takes all others from the store. -/
def OnTheSpot (store : Store V S) (inlined : List String) (read : Endpoint → V) : Prop :=
  ∀ e, read e = if e.node ∈ inlined then (I.step e.node (I.inletValues g read e.node) (store.states e.node)).1 e.portlet
    else store.outlets e

end Interpretation

namespace Graph
variable {g : Graph} {order inlined : List String}

/-- Every node in `inlined` feeds one node only, and that node runs later. -/
structure Inlinable (g : Graph) (order inlined : List String) : Prop where
  wf : g.WellFormed
  ordered : g.RunOrder order
  sink : ∀ u ∈ inlined, ∃ target, [u, target].Sublist order ∧ ∀ v, g.Feeds .signal u v ↔ v = target

/-- The value of `u` is used at `final`, possibly through other inlined nodes. -/
inductive UsedAt (g : Graph) (inlined : List String) : String → String → Prop where
  | last {u final : String} (own : u ∈ inlined) (feeds : g.Feeds .signal u final) (kept : final ∉ inlined) :
      UsedAt g inlined u final
  | through {u v final : String} (own : u ∈ inlined) (feeds : g.Feeds .signal u v) (rest : UsedAt g inlined v final) :
      UsedAt g inlined u final

theorem Inlinable.before (fits : g.Inlinable order inlined) {u v : String} (own : u ∈ inlined)
    (feeds : g.Feeds .signal u v) : [u, v].Sublist order := by
  obtain ⟨target, earlier, only⟩ := fits.sink u own
  exact (only v).mp feeds ▸ earlier

theorem Inlinable.subset (fits : g.Inlinable order inlined) : inlined ⊆ order := by
  intro u own
  obtain ⟨_, earlier, _⟩ := fits.sink u own
  exact earlier.subset List.mem_cons_self

/-- Going up from a node to its inlined sources comes to an end. -/
theorem Inlinable.wellFounded (fits : g.Inlinable order inlined) :
    WellFounded (fun u v => u ∈ inlined ∧ g.Feeds .signal u v) := by
  refine Subrelation.wf ?_ (InvImage.wf (fun v => order.idxOf v) Nat.lt_wfRel.wf)
  rintro u v ⟨own, feeds⟩
  exact ((pair_sublist_iff_idxOf_lt fits.ordered.nodup).mp (fits.before own feeds)).2

theorem Inlinable.sink_unique (fits : g.Inlinable order inlined) {u v w : String} (own : u ∈ inlined)
    (left : g.Feeds .signal u v) (right : g.Feeds .signal u w) : v = w := by
  obtain ⟨target, _, only⟩ := fits.sink u own
  exact ((only v).mp left).trans ((only w).mp right).symm

/-- Forward connections lead to later nodes. -/
theorem RunOrder.later (ordered : g.RunOrder order) {u w : String} (chain : ReflTransGen (g.RunsInto order) u w) :
    w = u ∨ [u, w].Sublist order := by
  induction chain with
  | refl => exact .inl rfl
  | tail _ step ih =>
    rcases ih with rfl | earlier
    · exact .inr step.2
    · rw [pair_sublist_iff_idxOf_lt ordered.nodup] at earlier ⊢
      have next := (pair_sublist_iff_idxOf_lt ordered.nodup).mp step.2
      exact .inr ⟨next.1, by omega⟩

/-- Forward connections from an inlined node lead to the place where its value is used, before they lead elsewhere. -/
theorem Inlinable.forward (fits : g.Inlinable order inlined) {u w final : String} (used : g.UsedAt inlined u final)
    (kept : w ∉ inlined) (chain : ReflTransGen (g.RunsInto order) u w) : w = final ∨ [final, w].Sublist order := by
  induction used with
  | last own feeds _ =>
    rcases ReflTransGen.cases_head chain with rfl | ⟨v, step, rest⟩
    · exact absurd own kept
    · obtain rfl := fits.sink_unique own step.1 feeds
      exact fits.ordered.later rest
  | through own feeds _ ih =>
    rcases ReflTransGen.cases_head chain with rfl | ⟨v, step, rest⟩
    · exact absurd own kept
    · obtain rfl := fits.sink_unique own step.1 feeds
      exact ih rest

/-- A source of an inlined node runs before that node, or not before the value of the node is used. -/
theorem Inlinable.source_outside (fits : g.Inlinable order inlined) {u w final : String} (used : g.UsedAt inlined u final)
    (kept : w ∉ inlined) (feeds : g.Feeds .signal w u) :
    [w, u].Sublist order ∨ w = final ∨ [final, w].Sublist order := by
  have own : u ∈ inlined := by
    cases used with
    | last own _ _ => exact own
    | through own _ _ => exact own
  obtain ⟨target, earlier, _⟩ := fits.sink u own
  rcases fits.ordered.sourcesFirst u (earlier.subset (by simp)) w feeds with first | cycle
  · exact .inl first
  · exact .inr (fits.forward used kept cycle)

end Graph

namespace Interpretation
open DspPatch.Graph
variable {V S : Type} {I : Interpretation V S} {g : Graph} {order inlined done : List String} {store : Store V S}

/-- A node reads the outlets that are connected to it and no others. -/
theorem inletValues_congr_connected (wf : g.WellFormed) {left right : Endpoint → V} {id : String}
    (same : ∀ e inlet, g.Connects .signal ⟨e, ⟨id, inlet⟩⟩ → left e = right e) :
    I.inletValues g left id = I.inletValues g right id := by
  unfold inletValues
  cases found : g.get? id with
  | none => rfl
  | some n =>
    refine List.map_congr_left (fun i member => ?_)
    have sources : (n.sourcesOf i.id).map left = (n.sourcesOf i.id).map right := by
      refine List.map_congr_left (fun e listed => same e i.id ?_)
      obtain ⟨declared, kind⟩ := (mem_inletsOf_iff wf found).mp member
      exact (connects_iff_source wf).mpr ⟨n, i, found, declared, kind, listed⟩
    rw [sources]

theorem inletValues_congr (wf : g.WellFormed) {left right : Endpoint → V} {id : String}
    (same : ∀ e, g.Feeds .signal e.node id → left e = right e) : I.inletValues g left id = I.inletValues g right id :=
  inletValues_congr_connected wf (fun e inlet connects => same e ⟨e.portlet, inlet, connects⟩)

theorem readInlined_of_mem {e : Endpoint} (member : e.node ∈ inlined) : I.readInlined g store inlined e =
    (I.step e.node (I.inletValues g (I.readInlined g store (inlined.erase e.node)) e.node) (store.states e.node)).1
      e.portlet := by
  rw [readInlined, if_pos member]

theorem readInlined_of_not_mem {e : Endpoint} (kept : e.node ∉ inlined) :
    I.readInlined g store inlined e = store.outlets e := by
  rw [readInlined, if_neg kept]

/-- At the sources of an inlined node it does not matter which of the later nodes are listed. -/
theorem readInlined_source_congr (fits : g.Inlinable order inlined) {a b : List String} (aListed : a ⊆ inlined)
    (bListed : b ⊆ inlined) {u : String} (below : ∀ w ∈ inlined, order.idxOf w < order.idxOf u → w ∈ a ∧ w ∈ b)
    {e : Endpoint} (feeds : g.Feeds .signal e.node u) : I.readInlined g store a e = I.readInlined g store b e := by
  generalize place : order.idxOf u = k at below
  induction k using Nat.strongRecOn generalizing a b u e with
  | ind k ih =>
    subst place
    by_cases own : e.node ∈ inlined
    · have less := ((pair_sublist_iff_idxOf_lt fits.ordered.nodup).mp (fits.before own feeds)).2
      obtain ⟨inA, inB⟩ := below _ own less
      rw [readInlined_of_mem inA, readInlined_of_mem inB]
      have inlets : I.inletValues g (I.readInlined g store (a.erase e.node)) e.node =
          I.inletValues g (I.readInlined g store (b.erase e.node)) e.node := by
        refine inletValues_congr fits.wf (fun source feedsOwn => ?_)
        refine ih _ less (fun w member => aListed (List.mem_of_mem_erase member))
          (fun w member => bListed (List.mem_of_mem_erase member)) feedsOwn rfl (fun w member earlier => ?_)
        have different : w ≠ e.node := fun same => by
          subst same
          omega
        obtain ⟨wInA, wInB⟩ := below w member (by omega)
        exact ⟨(List.mem_erase_of_ne different).mpr wInA, (List.mem_erase_of_ne different).mpr wInB⟩
      rw [inlets]
    · rw [readInlined_of_not_mem (fun member => own (aListed member)),
        readInlined_of_not_mem (fun member => own (bListed member))]

/-- `readInlined` computes inlined nodes from their own inlets. -/
theorem onTheSpot_readInlined (fits : g.Inlinable order inlined) (store : Store V S) :
    I.OnTheSpot g store inlined (I.readInlined g store inlined) := by
  intro e
  by_cases own : e.node ∈ inlined
  · rw [if_pos own, readInlined_of_mem own]
    have inlets : I.inletValues g (I.readInlined g store (inlined.erase e.node)) e.node =
        I.inletValues g (I.readInlined g store inlined) e.node := by
      refine inletValues_congr fits.wf (fun source feeds => ?_)
      refine readInlined_source_congr fits List.erase_subset (List.Subset.refl _) (fun w member less => ?_) feeds
      have different : w ≠ e.node := fun same => by
        subst same
        omega
      exact ⟨(List.mem_erase_of_ne different).mpr member, member⟩
    rw [inlets]
  · rw [if_neg own, readInlined_of_not_mem own]

/-- There is only one way to compute inlined nodes on the spot. -/
theorem OnTheSpot.unique (fits : g.Inlinable order inlined) {left right : Endpoint → V}
    (ofLeft : I.OnTheSpot g store inlined left) (ofRight : I.OnTheSpot g store inlined right) : left = right := by
  have upTo : ∀ k, ∀ e : Endpoint, (e.node ∈ inlined → order.idxOf e.node < k) → left e = right e := by
    intro k
    induction k with
    | zero =>
      intro e below
      have kept : e.node ∉ inlined := fun own => Nat.not_lt_zero _ (below own)
      rw [ofLeft e, ofRight e, if_neg kept, if_neg kept]
    | succ k ih =>
      intro e below
      rw [ofLeft e, ofRight e]
      by_cases own : e.node ∈ inlined
      · rw [if_pos own, if_pos own, inletValues_congr fits.wf (fun source feeds => ih source (fun inner => ?_))]
        have less := ((pair_sublist_iff_idxOf_lt fits.ordered.nodup).mp (fits.before inner feeds)).2
        have := below own
        omega
      · rw [if_neg own, if_neg own]
  funext e
  exact upTo (order.idxOf e.node + 1) e (fun _ => Nat.lt_succ_self _)

end Interpretation
end DspPatch
