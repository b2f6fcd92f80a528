import DspPatch.Draft.Cold
import DspPatch.Proofs.Graph.Integrity

/-!
The connections of a graph as a relation. `Connects` speaks of the record at the source; in a well-formed graph the record
at the sink says the same, and every list of neighbours that the library computes is the relation `Feeds` read from one of
its two sides.
-/
namespace DspPatch.Graph
variable {g : Graph} {kind : PortletKind}

/-- The sink is recorded at its source, which is an outlet of the kind. -/
def Connects (g : Graph) (kind : PortletKind) (c : Connection) : Prop :=
  ∃ n p, g.get? c.source.node = some n ∧ n.outlets.get? c.source.portlet = some p ∧ p.kind = kind ∧
    c.sink ∈ n.sinksOf c.source.portlet

/-- Some connection of the kind leads from `u` to `v`. -/
def Feeds (g : Graph) (kind : PortletKind) (u v : String) : Prop :=
  ∃ outlet inlet, g.Connects kind ⟨⟨u, outlet⟩, ⟨v, inlet⟩⟩

def outletKind? (g : Graph) (e : Endpoint) : Option PortletKind :=
  (g.get? e.node).bind (fun n => (n.outlets.get? e.portlet).map Portlet.kind)

def inletKind? (g : Graph) (e : Endpoint) : Option PortletKind :=
  (g.get? e.node).bind (fun n => (n.inlets.get? e.portlet).map Portlet.kind)

theorem outletKind?_eq_some_iff {e : Endpoint} : g.outletKind? e = some kind ↔
    ∃ n, g.get? e.node = some n ∧ ∃ p, n.outlets.get? e.portlet = some p ∧ p.kind = kind := by
  simp only [outletKind?, Option.bind_eq_some_iff, Option.map_eq_some_iff]

theorem inletKind?_eq_some_iff {e : Endpoint} : g.inletKind? e = some kind ↔
    ∃ n, g.get? e.node = some n ∧ ∃ p, n.inlets.get? e.portlet = some p ∧ p.kind = kind := by
  simp only [inletKind?, Option.bind_eq_some_iff, Option.map_eq_some_iff]

/-- Portlets of a kind that are listed under their ids are found there. -/
theorem mem_portletsOf_iff {portlets : Table Portlet} (own : ∀ {key p}, portlets.get? key = some p → p.id = key)
    {p : Portlet} : p ∈ portlets.values.filter (fun p => p.kind = kind) ↔ portlets.get? p.id = some p ∧ p.kind = kind := by
  simp only [List.mem_filter, Table.mem_values_iff, decide_eq_true_eq]
  constructor
  · rintro ⟨⟨key, declared⟩, same⟩
    exact ⟨(own declared).symm ▸ declared, same⟩
  · rintro ⟨declared, same⟩
    exact ⟨⟨p.id, declared⟩, same⟩

theorem mem_outletsOf_iff (wf : g.WellFormed) {u : String} {n : Node} (found : g.get? u = some n) {p : Portlet} :
    p ∈ n.outletsOf kind ↔ n.outlets.get? p.id = some p ∧ p.kind = kind :=
  mem_portletsOf_iff (wf.outletId found)

theorem mem_inletsOf_iff (wf : g.WellFormed) {v : String} {n : Node} (found : g.get? v = some n) {p : Portlet} :
    p ∈ n.inletsOf kind ↔ n.inlets.get? p.id = some p ∧ p.kind = kind :=
  mem_portletsOf_iff (wf.inletId found)

/-- Portlets that are listed under their ids are told apart by them. -/
theorem nodup_portletIds {portlets : Table Portlet} (own : ∀ {key p}, portlets.get? key = some p → p.id = key)
    (keep : Portlet → Bool) : ((portlets.values.filter keep).map Portlet.id).Nodup := by
  have ids : portlets.values.map Portlet.id = portlets.keys := by
    rw [Table.values, Table.keys, List.map_map]
    exact List.map_congr_left (fun entry member => own (Table.get?_eq_some_iff.mpr member))
  refine List.Nodup.sublist (List.Sublist.map _ List.filter_sublist) ?_
  exact ids ▸ portlets.nodup_keys

theorem nodup_outletsOf (wf : g.WellFormed) {u : String} {n : Node} (found : g.get? u = some n) (kind : PortletKind) :
    ((n.outletsOf kind).map Portlet.id).Nodup :=
  nodup_portletIds (wf.outletId found) _

theorem nodup_inletsOf (wf : g.WellFormed) {v : String} {n : Node} (found : g.get? v = some n) (kind : PortletKind) :
    ((n.inletsOf kind).map Portlet.id).Nodup :=
  nodup_portletIds (wf.inletId found) _

/-- The record at the sink tells the same connections. -/
theorem connects_iff_source (wf : g.WellFormed) {c : Connection} :
    g.Connects kind c ↔ ∃ n p, g.get? c.sink.node = some n ∧ n.inlets.get? c.sink.portlet = some p ∧ p.kind = kind ∧
      c.source ∈ n.sourcesOf c.sink.portlet := by
  obtain ⟨⟨u, outlet⟩, ⟨v, inlet⟩⟩ := c
  constructor
  · rintro ⟨n, p, found, declared, rfl, listed⟩
    obtain ⟨target, targetFound, known⟩ := wf.sinkDeclared found outlet _ listed
    obtain ⟨q, targetDeclared⟩ := Table.mem_keys_iff.mp known
    exact ⟨target, q, targetFound, targetDeclared, wf.sameKind found declared _ listed targetFound targetDeclared,
      (wf.mirror found targetFound outlet inlet).mp listed⟩
  · rintro ⟨m, q, found, declared, rfl, listed⟩
    obtain ⟨origin, originFound, known⟩ := wf.sourceDeclared found inlet _ listed
    obtain ⟨p, originDeclared⟩ := Table.mem_keys_iff.mp known
    have recorded := (wf.mirror originFound found outlet inlet).mpr listed
    exact ⟨origin, p, originFound, originDeclared, (wf.sameKind originFound originDeclared _ recorded found declared).symm,
      recorded⟩

theorem mem_sinkEndpoints_iff (wf : g.WellFormed) {u : String} {n : Node} (found : g.get? u = some n) {e : Endpoint} :
    e ∈ n.sinkEndpoints kind ↔ ∃ outlet, g.Connects kind ⟨⟨u, outlet⟩, e⟩ := by
  simp only [Node.sinkEndpoints, List.mem_flatMap, mem_outletsOf_iff wf found]
  constructor
  · rintro ⟨p, ⟨declared, same⟩, listed⟩
    exact ⟨p.id, n, p, found, declared, same, listed⟩
  · rintro ⟨outlet, m, p, mFound, declared, same, listed⟩
    cases found.symm.trans mFound
    cases wf.outletId found declared
    exact ⟨p, ⟨declared, same⟩, listed⟩

theorem mem_sourceEndpoints_iff (wf : g.WellFormed) {v : String} {n : Node} (found : g.get? v = some n) {e : Endpoint} :
    e ∈ n.sourceEndpoints kind ↔ ∃ inlet, g.Connects kind ⟨e, ⟨v, inlet⟩⟩ := by
  simp only [Node.sourceEndpoints, List.mem_flatMap, mem_inletsOf_iff wf found, connects_iff_source wf]
  constructor
  · rintro ⟨p, ⟨declared, same⟩, listed⟩
    exact ⟨p.id, n, p, found, declared, same, listed⟩
  · rintro ⟨inlet, m, p, mFound, declared, same, listed⟩
    cases found.symm.trans mFound
    cases wf.inletId found declared
    exact ⟨p, ⟨declared, same⟩, listed⟩

theorem Feeds.source_exists {u v : String} (feeds : g.Feeds kind u v) : ∃ n, g.get? u = some n := by
  obtain ⟨_, _, n, _, found, _⟩ := feeds
  exact ⟨n, found⟩

theorem Feeds.sink_exists (wf : g.WellFormed) {u v : String} (feeds : g.Feeds kind u v) : ∃ n, g.get? v = some n := by
  obtain ⟨outlet, inlet, n, _, found, _, _, listed⟩ := feeds
  obtain ⟨target, targetFound, _⟩ := wf.sinkDeclared found outlet _ listed
  exact ⟨target, targetFound⟩

theorem mem_signalSinks_iff (wf : g.WellFormed) {u v : String} : v ∈ Cold.signalSinks g u ↔ g.Feeds .signal u v := by
  unfold Cold.signalSinks
  cases found : g.get? u with
  | none =>
    refine ⟨fun member => by simp at member, fun feeds => ?_⟩
    obtain ⟨n, present⟩ := feeds.source_exists
    simp [found] at present
  | some n =>
    simp only [List.mem_map, mem_sinkEndpoints_iff wf found]
    constructor
    · rintro ⟨⟨_, inlet⟩, ⟨outlet, connects⟩, rfl⟩
      exact ⟨outlet, inlet, connects⟩
    · rintro ⟨outlet, inlet, connects⟩
      exact ⟨⟨v, inlet⟩, ⟨outlet, connects⟩, rfl⟩

theorem mem_signalSources_iff (wf : g.WellFormed) {u v : String} : u ∈ Cold.signalSources g v ↔ g.Feeds .signal u v := by
  unfold Cold.signalSources
  cases found : g.get? v with
  | none =>
    refine ⟨fun member => by simp at member, fun feeds => ?_⟩
    obtain ⟨n, present⟩ := feeds.sink_exists wf
    simp [found] at present
  | some n =>
    simp only [List.mem_map, mem_sourceEndpoints_iff wf found]
    constructor
    · rintro ⟨⟨_, outlet⟩, ⟨inlet, connects⟩, rfl⟩
      exact ⟨outlet, inlet, connects⟩
    · rintro ⟨outlet, inlet, connects⟩
      exact ⟨⟨u, outlet⟩, ⟨inlet, connects⟩, rfl⟩

end DspPatch.Graph
