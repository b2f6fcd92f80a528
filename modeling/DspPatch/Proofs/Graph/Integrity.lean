import DspPatch.Graph.Integrity
import DspPatch.Proofs.Outcome
import DspPatch.Proofs.Table

/-!
What the integrity check establishes. A graph passes it exactly if it is `Mirrored`: every node stands under its id, every
connection has declared portlets of existing nodes at both ends, and a sink is recorded exactly where its source is. On
top of that a graph is `WellFormed` if portlets stand under their ids and connections join portlets of one kind; then a
connection reads the same from its source and from its sink.
-/
namespace DspPatch

namespace Node

theorem inlet_eq_ok_iff {n : Node} {id : String} {p : Portlet} : n.inlet id = .ok p ↔ n.inlets.get? id = some p := by
  unfold inlet
  cases n.inlets.get? id <;> simp

theorem inlet_yields (n : Node) (id : String) :
    Yields (n.inlet id) (fun p => n.inlets.get? id = some p) (fun _ => n.inlets.get? id = none) := by
  unfold inlet
  cases found : n.inlets.get? id <;> simp [Yields]

theorem outlet_yields (n : Node) (id : String) :
    Yields (n.outlet id) (fun p => n.outlets.get? id = some p) (fun _ => n.outlets.get? id = none) := by
  unfold outlet
  cases found : n.outlets.get? id <;> simp [Yields]

theorem discard_inlet_eq_ok_iff {n : Node} {id : String} : discard (n.inlet id) = .ok () ↔ id ∈ n.inlets.keys := by
  rw [Table.mem_keys_iff]
  unfold inlet
  cases n.inlets.get? id <;> simp [discard, Functor.mapConst, Except.map]

theorem discard_outlet_eq_ok_iff {n : Node} {id : String} : discard (n.outlet id) = .ok () ↔ id ∈ n.outlets.keys := by
  rw [Table.mem_keys_iff]
  unfold outlet
  cases n.outlets.get? id <;> simp [discard, Functor.mapConst, Except.map]

theorem mem_sinksOf_iff {n : Node} {outlet : String} {sink : Endpoint} :
    sink ∈ n.sinksOf outlet ↔ ∃ sinks, (outlet, sinks) ∈ n.sinks.entries ∧ sink ∈ sinks := by
  simp only [← Table.get?_eq_some_iff, sinksOf]
  cases n.sinks.get? outlet <;> simp

theorem mem_sourcesOf_iff {n : Node} {inlet : String} {source : Endpoint} :
    source ∈ n.sourcesOf inlet ↔ ∃ sources, (inlet, sources) ∈ n.sources.entries ∧ source ∈ sources := by
  simp only [← Table.get?_eq_some_iff, sourcesOf]
  cases n.sources.get? inlet <;> simp

end Node

namespace Graph

theorem ext {g t : Graph} (same : g.nodes = t.nodes) : g = t := by
  cases g
  cases t
  exact congrArg Graph.mk same

theorem node_eq_ok_iff {g : Graph} {id : String} {n : Node} : g.node id = .ok n ↔ g.get? id = some n := by
  unfold node
  cases g.get? id <;> simp

theorem node_yields (g : Graph) (id : String) :
    Yields (g.node id) (fun n => g.get? id = some n) (fun _ => g.get? id = none) := by
  unfold Graph.node
  cases found : g.get? id <;> simp [Yields]

/-- Every node stands under its id, connections have declared ends, and both records of every connection agree. -/
structure Mirrored (g : Graph) : Prop where
  keyed : ∀ {key n}, g.get? key = some n → n.id = key
  outletDeclared : ∀ {u n}, g.get? u = some n → ∀ outlet ∈ n.sinks.keys, outlet ∈ n.outlets.keys
  inletDeclared : ∀ {v n}, g.get? v = some n → ∀ inlet ∈ n.sources.keys, inlet ∈ n.inlets.keys
  sinkDeclared : ∀ {u n}, g.get? u = some n → ∀ outlet, ∀ sink ∈ n.sinksOf outlet,
    ∃ target, g.get? sink.node = some target ∧ sink.portlet ∈ target.inlets.keys
  sourceDeclared : ∀ {v n}, g.get? v = some n → ∀ inlet, ∀ source ∈ n.sourcesOf inlet,
    ∃ origin, g.get? source.node = some origin ∧ source.portlet ∈ origin.outlets.keys
  mirror : ∀ {u n v m}, g.get? u = some n → g.get? v = some m → ∀ outlet inlet,
    (⟨v, inlet⟩ ∈ n.sinksOf outlet ↔ ⟨u, outlet⟩ ∈ m.sourcesOf inlet)

theorem checkSink_eq_ok_iff {g : Graph} {n : Node} {outlet : String} {sink : Endpoint} :
    g.checkSink n outlet sink = .ok () ↔ ∃ target, g.get? sink.node = some target ∧
      sink.portlet ∈ target.inlets.keys ∧ ⟨n.id, outlet⟩ ∈ target.sourcesOf sink.portlet := by
  unfold checkSink
  cases g.get? sink.node with
  | none => simp
  | some target =>
    rw [then_eq_ok_iff]
    simp only [Option.some.injEq, exists_eq_left', ← Node.discard_inlet_eq_ok_iff]
    by_cases mirrored : ⟨n.id, outlet⟩ ∈ target.sourcesOf sink.portlet <;> simp [mirrored]

theorem checkSource_eq_ok_iff {g : Graph} {n : Node} {inlet : String} {source : Endpoint} :
    g.checkSource n inlet source = .ok () ↔ ∃ origin, g.get? source.node = some origin ∧
      source.portlet ∈ origin.outlets.keys ∧ ⟨n.id, inlet⟩ ∈ origin.sinksOf source.portlet := by
  unfold checkSource
  cases g.get? source.node with
  | none => simp
  | some origin =>
    rw [then_eq_ok_iff]
    simp only [Option.some.injEq, exists_eq_left', ← Node.discard_outlet_eq_ok_iff]
    by_cases mirrored : ⟨n.id, inlet⟩ ∈ origin.sinksOf source.portlet <;> simp [mirrored]

theorem checkNode_eq_ok_iff {g : Graph} {key : String} {n : Node} :
    g.checkNode key n = .ok () ↔ n.id = key ∧
      (∀ entry ∈ n.sinks.entries, entry.1 ∈ n.outlets.keys ∧ ∀ sink ∈ entry.2, g.checkSink n entry.1 sink = .ok ()) ∧
      (∀ entry ∈ n.sources.entries, entry.1 ∈ n.inlets.keys ∧
        ∀ source ∈ entry.2, g.checkSource n entry.1 source = .ok ()) := by
  unfold checkNode
  by_cases placed : key = n.id
  · simp only [placed, ne_eq, not_true_eq_false, if_false, then_eq_ok_iff, forM_eq_ok_iff, true_and,
      Node.discard_inlet_eq_ok_iff, Node.discard_outlet_eq_ok_iff]
  · simp [placed, Ne.symm placed, bind, Except.bind, throw, throwThe, MonadExceptOf.throw]

private theorem checkNode_of_mirrored {g : Graph} (mirrored : g.Mirrored) {key : String} {n : Node}
    (found : g.get? key = some n) : g.checkNode key n = .ok () := by
  rw [checkNode_eq_ok_iff]
  refine ⟨mirrored.keyed found, ?_, ?_⟩
  · rintro ⟨outlet, sinks⟩ entry
    refine ⟨mirrored.outletDeclared found outlet (List.mem_map.mpr ⟨_, entry, rfl⟩), fun sink member => ?_⟩
    have listed : sink ∈ n.sinksOf outlet := Node.mem_sinksOf_iff.mpr ⟨sinks, entry, member⟩
    obtain ⟨target, targetFound, declared⟩ := mirrored.sinkDeclared found outlet sink listed
    refine checkSink_eq_ok_iff.mpr ⟨target, targetFound, declared, ?_⟩
    rw [mirrored.keyed found]
    exact (mirrored.mirror found targetFound outlet sink.portlet).mp listed
  · rintro ⟨inlet, sources⟩ entry
    refine ⟨mirrored.inletDeclared found inlet (List.mem_map.mpr ⟨_, entry, rfl⟩), fun source member => ?_⟩
    have listed : source ∈ n.sourcesOf inlet := Node.mem_sourcesOf_iff.mpr ⟨sources, entry, member⟩
    obtain ⟨origin, originFound, declared⟩ := mirrored.sourceDeclared found inlet source listed
    refine checkSource_eq_ok_iff.mpr ⟨origin, originFound, declared, ?_⟩
    rw [mirrored.keyed found]
    exact (mirrored.mirror originFound found source.portlet inlet).mpr listed

private theorem mirrored_of_checkNode {g : Graph}
    (checked : ∀ {key n}, g.get? key = some n → g.checkNode key n = .ok ()) : g.Mirrored := by
  have keyed : ∀ {key n}, g.get? key = some n → n.id = key := fun found => (checkNode_eq_ok_iff.mp (checked found)).1
  have sinkChecked : ∀ {u n}, g.get? u = some n → ∀ outlet, ∀ sink ∈ n.sinksOf outlet,
      ∃ target, g.get? sink.node = some target ∧ sink.portlet ∈ target.inlets.keys ∧
        ⟨u, outlet⟩ ∈ target.sourcesOf sink.portlet := by
    intro u n found outlet sink listed
    obtain ⟨sinks, entry, member⟩ := Node.mem_sinksOf_iff.mp listed
    have check := ((checkNode_eq_ok_iff.mp (checked found)).2.1 _ entry).2 sink member
    rw [checkSink_eq_ok_iff, keyed found] at check
    exact check
  have sourceChecked : ∀ {v n}, g.get? v = some n → ∀ inlet, ∀ source ∈ n.sourcesOf inlet,
      ∃ origin, g.get? source.node = some origin ∧ source.portlet ∈ origin.outlets.keys ∧
        ⟨v, inlet⟩ ∈ origin.sinksOf source.portlet := by
    intro v n found inlet source listed
    obtain ⟨sources, entry, member⟩ := Node.mem_sourcesOf_iff.mp listed
    have check := ((checkNode_eq_ok_iff.mp (checked found)).2.2 _ entry).2 source member
    rw [checkSource_eq_ok_iff, keyed found] at check
    exact check
  refine ⟨keyed, ?_, ?_, ?_, ?_, ?_⟩
  · intro u n found outlet member
    obtain ⟨entry, listed, rfl⟩ := List.mem_map.mp member
    exact ((checkNode_eq_ok_iff.mp (checked found)).2.1 entry listed).1
  · intro v n found inlet member
    obtain ⟨entry, listed, rfl⟩ := List.mem_map.mp member
    exact ((checkNode_eq_ok_iff.mp (checked found)).2.2 entry listed).1
  · intro u n found outlet sink listed
    obtain ⟨target, targetFound, declared, _⟩ := sinkChecked found outlet sink listed
    exact ⟨target, targetFound, declared⟩
  · intro v n found inlet source listed
    obtain ⟨origin, originFound, declared, _⟩ := sourceChecked found inlet source listed
    exact ⟨origin, originFound, declared⟩
  · intro u n v m uFound vFound outlet inlet
    constructor
    · intro listed
      obtain ⟨target, targetFound, _, recorded⟩ := sinkChecked uFound outlet ⟨v, inlet⟩ listed
      cases vFound.symm.trans targetFound
      exact recorded
    · intro listed
      obtain ⟨origin, originFound, _, recorded⟩ := sourceChecked vFound inlet ⟨u, outlet⟩ listed
      cases uFound.symm.trans originFound
      exact recorded

/-- The check accepts exactly the mirrored graphs. -/
theorem checkIntegrity_eq_ok_iff {g : Graph} : g.checkIntegrity = .ok () ↔ g.Mirrored := by
  unfold checkIntegrity
  rw [forM_eq_ok_iff]
  constructor
  · intro checked
    exact mirrored_of_checkNode (fun found => checked _ (Table.get?_eq_some_iff.mp found))
  · rintro mirrored ⟨key, n⟩ entry
    exact checkNode_of_mirrored mirrored (Table.get?_eq_some_iff.mpr entry)

/-- Every portlet stands under its id. -/
def PortletsKeyed (g : Graph) : Prop :=
  ∀ n ∈ g.nodes.values, (∀ entry ∈ n.inlets.entries, entry.2.id = entry.1) ∧
    ∀ entry ∈ n.outlets.entries, entry.2.id = entry.1

instance (g : Graph) : Decidable g.PortletsKeyed := inferInstanceAs (Decidable (∀ n ∈ _, _))

theorem PortletsKeyed.inletId {g : Graph} (keyed : g.PortletsKeyed) {v : String} {n : Node} (found : g.get? v = some n)
    {inlet : String} {p : Portlet} (declared : n.inlets.get? inlet = some p) : p.id = inlet :=
  (keyed n (Table.mem_values_iff.mpr ⟨v, found⟩)).1 _ (Table.get?_eq_some_iff.mp declared)

theorem PortletsKeyed.outletId {g : Graph} (keyed : g.PortletsKeyed) {u : String} {n : Node} (found : g.get? u = some n)
    {outlet : String} {p : Portlet} (declared : n.outlets.get? outlet = some p) : p.id = outlet :=
  (keyed n (Table.mem_values_iff.mpr ⟨u, found⟩)).2 _ (Table.get?_eq_some_iff.mp declared)

/-- The inlet at one end of a connection is of the kind of the outlet at the other. -/
def KindsAgree (g : Graph) : Prop :=
  ∀ n ∈ g.nodes.values, ∀ entry ∈ n.outlets.entries, ∀ sink ∈ n.sinksOf entry.1,
    ∀ target ∈ (g.get? sink.node).toList, ∀ inlet ∈ (target.inlets.get? sink.portlet).toList,
      inlet.kind = entry.2.kind

instance (g : Graph) : Decidable g.KindsAgree := inferInstanceAs (Decidable (∀ n ∈ _, _))

/-- A mirrored graph whose portlets stand under their ids and whose connections join portlets of one kind. -/
structure WellFormed (g : Graph) : Prop extends Mirrored g where
  inletId : ∀ {v n}, g.get? v = some n → ∀ {inlet p}, n.inlets.get? inlet = some p → p.id = inlet
  outletId : ∀ {u n}, g.get? u = some n → ∀ {outlet p}, n.outlets.get? outlet = some p → p.id = outlet
  sameKind : ∀ {u n}, g.get? u = some n → ∀ {outlet p}, n.outlets.get? outlet = some p → ∀ sink ∈ n.sinksOf outlet,
    ∀ {target q}, g.get? sink.node = some target → target.inlets.get? sink.portlet = some q → q.kind = p.kind

theorem WellFormed.portletsKeyed {g : Graph} (wf : g.WellFormed) : g.PortletsKeyed := by
  intro n member
  obtain ⟨id, found⟩ := Table.mem_values_iff.mp member
  constructor
  · exact fun entry listed => wf.inletId found (Table.get?_eq_some_iff.mpr listed)
  · exact fun entry listed => wf.outletId found (Table.get?_eq_some_iff.mpr listed)

theorem wellFormed_of_checks {g : Graph} (accepted : g.checkIntegrity = .ok ()) (keyed : g.PortletsKeyed)
    (kinds : g.KindsAgree) : g.WellFormed := by
  refine ⟨checkIntegrity_eq_ok_iff.mp accepted, keyed.inletId, keyed.outletId, ?_⟩
  · intro u n found outlet p declared sink listed target q targetFound targetDeclared
    exact kinds n (Table.mem_values_iff.mpr ⟨u, found⟩) _ (Table.get?_eq_some_iff.mp declared) sink listed target
      (by simp [targetFound]) q (by simp [targetDeclared])

end Graph
end DspPatch
