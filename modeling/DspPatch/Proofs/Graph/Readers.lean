import DspPatch.Graph.Json
import DspPatch.Proofs.Graph.SignalWalk

/-!
The two ways in which connections are read. A portlet stands under a key and has an id. The signal walk and the lists of
connections look up the ends of a portlet under its key, the lists of neighbours under its id. The integrity check compares
ids of nodes with their keys, but not those of portlets, so a portlet may be misfiled. The two ways yield the same nodes
exactly if every node that is connected at a misfiled portlet is found in both ways (`Graph.readers_agree_iff`).
-/
namespace DspPatch

/-- The inlets of a node with their sources, or its outlets with their sinks. -/
inductive PortletSide where
  | inlets
  | outlets
deriving DecidableEq, Repr

namespace Node

def portlets (n : Node) : PortletSide → Table Portlet
  | .inlets => n.inlets
  | .outlets => n.outlets

def endsOf (n : Node) : PortletSide → String → List Endpoint
  | .inlets => n.sourcesOf
  | .outlets => n.sinksOf

/-- What is recorded at a side: for each of its portlets the other ends. -/
def records (n : Node) : PortletSide → Table (List Endpoint)
  | .inlets => n.sources
  | .outlets => n.sinks

/-- The node without its connections. -/
def unconnected (n : Node) : Node := { n with sources := ∅, sinks := ∅ }

/-- The connections of a side, each as the key of the node's own portlet and the other end. -/
def connectionsAt (n : Node) : PortletSide → List (String × Endpoint)
  | .inlets => n.sourceConnections.map (fun c => (c.sink.portlet, c.source))
  | .outlets => n.sinkConnections.map (fun c => (c.source.portlet, c.sink))

/-- The kind of the portlet under a key. -/
def kindAt? (n : Node) (side : PortletSide) (key : String) : Option PortletKind :=
  ((n.portlets side).get? key).map Portlet.kind

/-- The kinds of the portlets with an id. -/
def kindsNamed (n : Node) (side : PortletSide) (id : String) : List PortletKind :=
  ((n.portlets side).values.filter (fun p => p.id = id)).map Portlet.kind

/-- The nodes that are connected to a node, found through the keys of its portlets of a kind. -/
def nodesByKey (n : Node) (side : PortletSide) (kind : PortletKind) : List String :=
  ((n.connectionsAt side).filter (fun c => n.kindAt? side c.1 = some kind)).map (fun c => c.2.node)

/-- A portlet of the kind stands under the key, or one has it as its id, but not both. -/
def Misfiled (n : Node) (side : PortletSide) (kind : PortletKind) (key : String) : Prop :=
  ¬(n.kindAt? side key = some kind ↔ kind ∈ n.kindsNamed side key)

instance (n : Node) (side : PortletSide) (kind : PortletKind) (key : String) : Decidable (n.Misfiled side kind key) :=
  inferInstanceAs (Decidable ¬_)

/-- The other ends of the portlets of a kind, found through the ids of these portlets. -/
def endpointsById (n : Node) : PortletSide → PortletKind → List Endpoint
  | .inlets => n.sourceEndpoints
  | .outlets => n.sinkEndpoints

variable {n : Node} {side : PortletSide} {kind : PortletKind} {key : String} {e : Endpoint}

theorem endsOf_eq : n.endsOf side key = ((n.records side).get? key).getD [] := by
  cases side <;> rfl

theorem mem_connectionsAt_iff :
    (key, e) ∈ n.connectionsAt side ↔ key ∈ (n.portlets side).keys ∧ e ∈ n.endsOf side key := by
  cases side with
  | inlets => simp [connectionsAt, sourceConnections, portlets, endsOf]
  | outlets => simp [connectionsAt, sinkConnections, portlets, endsOf]

theorem mem_nodesByKey_iff {u : String} : u ∈ n.nodesByKey side kind ↔
    ∃ key e, n.kindAt? side key = some kind ∧ e ∈ n.endsOf side key ∧ e.node = u := by
  simp only [nodesByKey, List.mem_map, List.mem_filter, decide_eq_true_eq, Prod.exists, mem_connectionsAt_iff]
  constructor
  · rintro ⟨key, e, ⟨⟨_, listed⟩, isKind⟩, same⟩
    exact ⟨key, e, isKind, listed, same⟩
  · rintro ⟨key, e, isKind, listed, same⟩
    obtain ⟨p, declared, _⟩ := Option.map_eq_some_iff.mp isKind
    exact ⟨key, e, ⟨⟨Table.mem_keys_of_get? declared, listed⟩, isKind⟩, same⟩

theorem mem_endpointsById_iff :
    e ∈ n.endpointsById side kind ↔ ∃ key, kind ∈ n.kindsNamed side key ∧ e ∈ n.endsOf side key := by
  have named (key : String) : kind ∈ n.kindsNamed side key ↔
      ∃ p, p ∈ (n.portlets side).values ∧ p.kind = kind ∧ p.id = key := by
    simp only [kindsNamed, List.mem_map, List.mem_filter, decide_eq_true_eq]
    exact exists_congr (fun p => by tauto)
  have listed : e ∈ n.endpointsById side kind ↔
      ∃ p, p ∈ (n.portlets side).values ∧ p.kind = kind ∧ e ∈ n.endsOf side p.id := by
    cases side with
    | inlets => simp [endpointsById, sourceEndpoints, inletsOf, portlets, endsOf, and_assoc]
    | outlets => simp [endpointsById, sinkEndpoints, outletsOf, portlets, endsOf, and_assoc]
  rw [listed]
  constructor
  · rintro ⟨p, member, isKind, inside⟩
    exact ⟨p.id, (named p.id).mpr ⟨p, member, isKind, rfl⟩, inside⟩
  · rintro ⟨key, isNamed, inside⟩
    obtain ⟨p, member, isKind, rfl⟩ := (named key).mp isNamed
    exact ⟨p, member, isKind, inside⟩

/-- Both ways yield the same nodes exactly if every node at a misfiled portlet is found in both. -/
theorem mem_nodesByKey_iff_byId : (∀ u, u ∈ n.nodesByKey side kind ↔ u ∈ (n.endpointsById side kind).map Endpoint.node) ↔
    ∀ key, n.Misfiled side kind key → ∀ e ∈ n.endsOf side key,
      e.node ∈ n.nodesByKey side kind ∧ e.node ∈ (n.endpointsById side kind).map Endpoint.node := by
  have byKey {key : String} {e : Endpoint} (isKind : n.kindAt? side key = some kind) (inside : e ∈ n.endsOf side key) :
      e.node ∈ n.nodesByKey side kind :=
    mem_nodesByKey_iff.mpr ⟨key, e, isKind, inside, rfl⟩
  have byId {key : String} {e : Endpoint} (isNamed : kind ∈ n.kindsNamed side key) (inside : e ∈ n.endsOf side key) :
      e.node ∈ (n.endpointsById side kind).map Endpoint.node :=
    List.mem_map_of_mem (mem_endpointsById_iff.mpr ⟨key, isNamed, inside⟩)
  constructor
  · intro agree key misfiled e inside
    by_cases isKind : n.kindAt? side key = some kind
    · exact ⟨byKey isKind inside, (agree e.node).mp (byKey isKind inside)⟩
    · have isNamed : kind ∈ n.kindsNamed side key := by
        by_contra unnamed
        exact misfiled (iff_of_false isKind unnamed)
      exact ⟨(agree e.node).mpr (byId isNamed inside), byId isNamed inside⟩
  · intro both u
    constructor
    · intro member
      obtain ⟨key, e, isKind, inside, rfl⟩ := mem_nodesByKey_iff.mp member
      by_cases misfiled : n.Misfiled side kind key
      · exact (both key misfiled e inside).2
      · exact byId ((not_not.mp misfiled).mp isKind) inside
    · intro member
      obtain ⟨e, listed, rfl⟩ := List.mem_map.mp member
      obtain ⟨key, isNamed, inside⟩ := mem_endpointsById_iff.mp listed
      by_cases misfiled : n.Misfiled side kind key
      · exact (both key misfiled e inside).1
      · exact byKey ((not_not.mp misfiled).mpr isNamed) inside

/-- A portlet under its id is not misfiled. -/
theorem not_misfiled (own : ∀ {key p}, (n.portlets side).get? key = some p → p.id = key) : ¬n.Misfiled side kind key := by
  refine not_not.mpr ?_
  simp only [kindAt?, kindsNamed, Option.map_eq_some_iff, List.mem_map, List.mem_filter, decide_eq_true_eq,
    Table.mem_values_iff]
  constructor
  · rintro ⟨p, declared, isKind⟩
    exact ⟨p, ⟨⟨key, declared⟩, own declared⟩, isKind⟩
  · rintro ⟨p, ⟨⟨other, declared⟩, same⟩, isKind⟩
    exact ⟨p, (own declared).symm.trans same ▸ declared, isKind⟩

end Node

namespace Graph
variable {g : Graph}

/-- The other ends that are recorded for a portlet; there are none at a node that does not exist. -/
def endsAt (g : Graph) (side : PortletSide) (e : Endpoint) : List Endpoint :=
  ((g.get? e.node).map (fun n => n.endsOf side e.portlet)).getD []

theorem endsAt_of_get? {e : Endpoint} {n : Node} (found : g.get? e.node = some n) (side : PortletSide) :
    g.endsAt side e = n.endsOf side e.portlet := by
  rw [endsAt, found]
  rfl

/-- The neighbours of a node at a side, each once. -/
def neighbours (g : Graph) (n : Node) (kind : PortletKind) : PortletSide → Except CompileError (List Node)
  | .inlets => g.sourceNodes n kind
  | .outlets => g.sinkNodes n kind

theorem nodesAt_ok (keyed : ∀ {key n}, g.get? key = some n → n.id = key) {ids : List String}
    (present : ∀ id ∈ ids, ∃ n, g.get? id = some n) :
    ∃ nodes, g.nodesAt ids = .ok nodes ∧ nodes.map Node.id = ids.eraseDups := by
  have outcome : Yields (ids.eraseDups.mapM g.node) (List.Forall₂ (fun id n => id = Node.id n) ids.eraseDups)
      (fun _ => False) := by
    refine Yields.mapM (fun id member => ?_)
    obtain ⟨n, found⟩ := present id (List.mem_eraseDups.mp member)
    exact Yields.of_ok (node_eq_ok_iff.mpr found) (keyed found).symm
  obtain ⟨nodes, result, related⟩ := outcome.exists_ok
  refine ⟨nodes, result, ?_⟩
  rw [← map_eq_map_of_forall₂ id Node.id related, List.map_id]

theorem neighbours_ok (mirrored : g.Mirrored) {id : String} {n : Node} (found : g.get? id = some n) (kind : PortletKind)
    (side : PortletSide) : ∃ nodes, g.neighbours n kind side = .ok nodes ∧
      nodes.map Node.id = ((n.endpointsById side kind).map Endpoint.node).eraseDups := by
  have present : ∀ u ∈ (n.endpointsById side kind).map Endpoint.node, ∃ m, g.get? u = some m := by
    intro u member
    obtain ⟨e, listed, rfl⟩ := List.mem_map.mp member
    obtain ⟨key, _, inside⟩ := Node.mem_endpointsById_iff.mp listed
    cases side with
    | inlets =>
      obtain ⟨m, mFound, _⟩ := mirrored.sourceDeclared found key e inside
      exact ⟨m, mFound⟩
    | outlets =>
      obtain ⟨m, mFound, _⟩ := mirrored.sinkDeclared found key e inside
      exact ⟨m, mFound⟩
  cases side with
  | inlets => exact nodesAt_ok mirrored.keyed present
  | outlets => exact nodesAt_ok mirrored.keyed present

/-- The signal walk reads sources through the keys of inlets. -/
theorem signalSources_byKey (mirrored : g.Mirrored) {id : String} {n : Node} (found : g.get? id = some n) :
    ∃ sources, signalSources n = .ok sources ∧
      ∀ u, u ∈ sources.map Prod.snd ↔ u ∈ n.nodesByKey .inlets .signal := by
  obtain ⟨sources, read⟩ := exists_signalSources_iff.mpr (mirrored.inletDeclared found)
  refine ⟨sources, read, fun u => ?_⟩
  have listed : u ∈ sources.map Prod.snd ↔ ∃ inlet, (inlet, u) ∈ sources := by simp
  rw [listed, exists_mem_signalSources_iff read, Node.mem_nodesByKey_iff]
  simp only [Node.kindAt?, Node.portlets, Node.endsOf, Option.map_eq_some_iff]
  constructor
  · rintro ⟨inlet, p, declared, isKind, source, inside, same⟩
    exact ⟨inlet, source, ⟨p, declared, isKind⟩, inside, same⟩
  · rintro ⟨inlet, source, ⟨p, declared, isKind⟩, inside, same⟩
    exact ⟨inlet, p, declared, isKind, source, inside, same⟩

/-- In a graph that a text spells all readers succeed at every node. The signal walk finds the sources through the keys of
    inlets, and the lists of neighbours are found through the ids of portlets. Through keys and through ids the same nodes
    are found exactly if every node that is connected at a misfiled portlet is found in both ways; so it is if all portlets
    stand under their ids. -/
theorem readers_agree_iff {text : String} (reads : Graph.read text = .ok g) {id : String} {n : Node}
    (found : g.get? id = some n) (side : PortletSide) (kind : PortletKind) :
    (∃ sources, signalSources n = .ok sources ∧ ∀ u, u ∈ sources.map Prod.snd ↔ u ∈ n.nodesByKey .inlets .signal) ∧
    ∃ nodes, g.neighbours n kind side = .ok nodes ∧
      ((∀ u, u ∈ n.nodesByKey side kind ↔ u ∈ nodes.map Node.id) ↔
        ∀ key, n.Misfiled side kind key → ∀ e ∈ n.endsOf side key,
          e.node ∈ n.nodesByKey side kind ∧ e.node ∈ nodes.map Node.id) ∧
      (g.PortletsKeyed → ∀ u, u ∈ n.nodesByKey side kind ↔ u ∈ nodes.map Node.id) := by
  obtain ⟨_, _, checked⟩ := bind_eq_ok_iff.mp reads
  obtain ⟨accepted, same⟩ := then_eq_ok_iff.mp checked
  cases same
  have mirrored := checkIntegrity_eq_ok_iff.mp accepted
  obtain ⟨nodes, result, ids⟩ := neighbours_ok mirrored found kind side
  have members (u : String) : u ∈ nodes.map Node.id ↔ u ∈ (n.endpointsById side kind).map Endpoint.node := by
    rw [ids, List.mem_eraseDups]
  refine ⟨signalSources_byKey mirrored found, nodes, result, ?_, fun keyed => ?_⟩ <;> simp only [members]
  · exact Node.mem_nodesByKey_iff_byId
  refine Node.mem_nodesByKey_iff_byId.mpr (fun key misfiled => absurd misfiled (Node.not_misfiled ?_))
  cases side with
  | inlets => exact keyed.inletId found
  | outlets => exact keyed.outletId found

/-- An output whose inlet has another id than its key. -/
def relabelledText : String :=
  "\x7b\"osc\":[\"osc\",\"osc~\",\x7b\x7d,\x7b\x7d,\x7b\"0\":[\"0\",\"signal\"]\x7d,\x7b\x7d,\x7b\"0\":[[\"out\",\"0\"]]\x7d],"
    ++ "\"out\":[\"out\",\"dac~\",\x7b\x7d,\x7b\"0\":[\"left\",\"signal\"]\x7d,\x7b\x7d,\x7b\"0\":[[\"osc\",\"0\"]]\x7d]\x7d"

private theorem relabelledText_read : (Graph.read relabelledText).toOption.bind (fun g => (g.get? "out").map (fun n =>
    (g.signalTraversal (fun _ => true) ["out"], n.nodesByKey .inlets .signal,
      (g.sourceNodes n .signal).toOption.map (fun nodes => nodes.map Node.id)))) =
    some (.ok ["osc", "out"], ["osc"], some []) := by
  decide +kernel

/-- The signal walk goes from the output to the oscillator, which is not among the source nodes of the output. -/
theorem readers_agree_iff_relabelled : ∃ g n nodes, Graph.read relabelledText = .ok g ∧ g.get? "out" = some n ∧
    g.signalTraversal (fun _ => true) ["out"] = .ok ["osc", "out"] ∧ n.nodesByKey .inlets .signal = ["osc"] ∧
    g.neighbours n .signal .inlets = .ok nodes ∧ nodes.map Node.id = [] ∧
    ¬∀ key, n.Misfiled .inlets .signal key → ∀ e ∈ n.endsOf .inlets key,
      e.node ∈ n.nodesByKey .inlets .signal ∧ e.node ∈ nodes.map Node.id := by
  obtain ⟨g, isRead, read⟩ := Option.bind_eq_some_iff.mp relabelledText_read
  obtain ⟨n, found, values⟩ := Option.map_eq_some_iff.mp read
  simp only [Prod.mk.injEq] at values
  obtain ⟨walk, byKey, byId⟩ := values
  have reads : Graph.read relabelledText = .ok g := toOption_eq_some_iff.mp isRead
  obtain ⟨_, nodes, result, agree, _⟩ := readers_agree_iff reads found .inlets .signal
  have listed : nodes.map Node.id = [] := by
    have same : g.sourceNodes n .signal = .ok nodes := result
    simpa [same, Except.toOption] using byId
  refine ⟨g, n, nodes, reads, found, walk, byKey, result, listed, fun both => ?_⟩
  have sameNodes := (agree.mpr both "osc").mp (by simp [byKey])
  simp [listed] at sameNodes

end Graph
end DspPatch
