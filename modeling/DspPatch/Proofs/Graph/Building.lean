import DspPatch.Proofs.Graph.Readers
import Mathlib.Data.List.Nodup

/-!
Graphs that are built step by step. The check accepts exactly the graphs in which every connection is recorded at both of
its ends (`Graph.Paired`). Starting from the empty graph, inserting nodes without connections and connecting portlets never
leads out of these graphs, whether the single calls succeed, fail or repeat what is there
(`Graph.integrity_exact_and_maintained`).
-/
namespace DspPatch

/-- The side at the other end of a connection. -/
def PortletSide.opposite : PortletSide → PortletSide
  | .inlets => .outlets
  | .outlets => .inlets

/-- The end of a connection at a side of a node. -/
def Connection.endAt (c : Connection) : PortletSide → Endpoint
  | .inlets => c.sink
  | .outlets => c.source

/-- Nothing is connected to the node: whatever its records name is declared and has no ends. -/
def Node.Free (n : Node) : Prop :=
  ∀ side, ∀ entry ∈ (n.records side).entries, entry.1 ∈ (n.portlets side).keys ∧ entry.2 = []

theorem Node.Free.endsOf {n : Node} (free : n.Free) (side : PortletSide) (portlet : String) : n.endsOf side portlet = [] := by
  rw [Node.endsOf_eq]
  cases found : (n.records side).get? portlet with
  | none => rfl
  | some ends => exact (free side _ (Table.get?_eq_some_iff.mp found)).2

namespace Graph
variable {g : Graph} {n : Node} {c : Connection}

/-- The portlet is declared by a node of the graph. -/
def Declares (g : Graph) (side : PortletSide) (e : Endpoint) : Prop :=
  ∃ n, g.get? e.node = some n ∧ e.portlet ∈ (n.portlets side).keys

/-- Every node stands under its id, what is recorded has declared portlets at both ends, and a connection is recorded at
    its sink exactly if it is recorded at its source. -/
structure Paired (g : Graph) : Prop where
  keyed : ∀ {id n}, g.get? id = some n → n.id = id
  recorded : ∀ side {id n}, g.get? id = some n → ∀ portlet ∈ (n.records side).keys, portlet ∈ (n.portlets side).keys
  declared : ∀ side e, ∀ other ∈ g.endsAt side e, g.Declares side.opposite other
  both : ∀ source sink, sink ∈ g.endsAt .outlets source ↔ source ∈ g.endsAt .inlets sink

theorem mem_endsAt_iff {side : PortletSide} {e other : Endpoint} :
    other ∈ g.endsAt side e ↔ ∃ n, g.get? e.node = some n ∧ other ∈ n.endsOf side e.portlet := by
  unfold endsAt
  cases g.get? e.node <;> simp

theorem paired_of_mirrored (mirrored : g.Mirrored) : g.Paired := by
  refine ⟨mirrored.keyed, fun side id n found => ?_, fun side e other listed => ?_, fun source sink => ?_⟩
  · cases side with
    | inlets => exact mirrored.inletDeclared found
    | outlets => exact mirrored.outletDeclared found
  · obtain ⟨n, found, member⟩ := mem_endsAt_iff.mp listed
    cases side with
    | inlets => exact mirrored.sourceDeclared found e.portlet other member
    | outlets => exact mirrored.sinkDeclared found e.portlet other member
  · simp only [mem_endsAt_iff]
    constructor
    · rintro ⟨n, found, member⟩
      obtain ⟨target, targetFound, _⟩ := mirrored.sinkDeclared found source.portlet sink member
      exact ⟨target, targetFound, (mirrored.mirror found targetFound source.portlet sink.portlet).mp member⟩
    · rintro ⟨n, found, member⟩
      obtain ⟨origin, originFound, _⟩ := mirrored.sourceDeclared found sink.portlet source member
      exact ⟨origin, originFound, (mirrored.mirror originFound found source.portlet sink.portlet).mpr member⟩

theorem mirrored_of_paired (paired : g.Paired) : g.Mirrored := by
  have listed : ∀ side {id n}, g.get? id = some n → ∀ portlet, ∀ other ∈ n.endsOf side portlet,
      other ∈ g.endsAt side ⟨id, portlet⟩ := fun side id n found portlet other member =>
    mem_endsAt_iff.mpr ⟨n, found, member⟩
  refine ⟨paired.keyed, paired.recorded .outlets, paired.recorded .inlets, ?_, ?_, ?_⟩
  · exact fun found outlet sink member => paired.declared .outlets _ sink (listed .outlets found outlet sink member)
  · exact fun found inlet source member => paired.declared .inlets _ source (listed .inlets found inlet source member)
  · intro u n v m uFound vFound outlet inlet
    have both := paired.both ⟨u, outlet⟩ ⟨v, inlet⟩
    rwa [endsAt_of_get? uFound, endsAt_of_get? vFound] at both

/-- The check accepts exactly the graphs whose connections are recorded at both ends. -/
theorem checkIntegrity_eq_ok_iff_paired : g.checkIntegrity = .ok () ↔ g.Paired :=
  checkIntegrity_eq_ok_iff.trans ⟨paired_of_mirrored, mirrored_of_paired⟩

theorem paired_empty : Graph.empty.Paired := by
  constructor
  · intro id n found
    cases found
  · intro side id n found
    cases found
  · exact fun side e => List.forall_mem_nil _
  · exact fun source sink => iff_of_false List.not_mem_nil List.not_mem_nil

section Insert

theorem get?_insert (g : Graph) (n : Node) (id : String) : (g.insert n).get? id = if id = n.id then some n else g.get? id :=
  Table.get?_insert g.nodes n.id n id

/-- A new node without connections leaves what is recorded as it is. -/
theorem endsAt_insert (free : n.Free) (fresh : n.id ∉ g.nodes.keys) (side : PortletSide) (e : Endpoint) :
    (g.insert n).endsAt side e = g.endsAt side e := by
  unfold endsAt
  rw [get?_insert]
  by_cases own : e.node = n.id
  · have missing : g.get? e.node = none := by
      by_contra present
      obtain ⟨m, found⟩ := Option.ne_none_iff_exists'.mp present
      exact fresh (own ▸ Table.mem_keys_of_get? found)
    rw [if_pos own, missing]
    exact free.endsOf side e.portlet
  · rw [if_neg own]

theorem Paired.insert (paired : g.Paired) (free : n.Free) (fresh : n.id ∉ g.nodes.keys) : (g.insert n).Paired := by
  have kept : ∀ {id m}, g.get? id = some m → (g.insert n).get? id = some m := by
    intro id m found
    rw [get?_insert, if_neg]
    · exact found
    · rintro rfl
      exact fresh (Table.mem_keys_of_get? found)
  have inserted : ∀ {id m}, (g.insert n).get? id = some m → (id = n.id ∧ m = n) ∨ g.get? id = some m := by
    intro id m found
    rw [get?_insert] at found
    by_cases own : id = n.id
    · rw [if_pos own] at found
      exact .inl ⟨own, (Option.some.inj found).symm⟩
    · rw [if_neg own] at found
      exact .inr found
  refine ⟨fun found => ?_, fun side id m found portlet member => ?_, fun side e other listed => ?_, fun source sink => ?_⟩
  · rcases inserted found with ⟨rfl, rfl⟩ | old
    · rfl
    · exact paired.keyed old
  · rcases inserted found with ⟨_, rfl⟩ | old
    · obtain ⟨entry, recorded, rfl⟩ := List.mem_map.mp member
      exact (free side entry recorded).1
    · exact paired.recorded side old portlet member
  · rw [endsAt_insert free fresh] at listed
    obtain ⟨m, found, declared⟩ := paired.declared side e other listed
    exact ⟨m, kept found, declared⟩
  · rw [endsAt_insert free fresh, endsAt_insert free fresh]
    exact paired.both source sink

end Insert

/-- The end is put behind the others unless it is among them. -/
def addEnd (ends : List Endpoint) (e : Endpoint) : List Endpoint := if e ∈ ends then ends else ends ++ [e]

theorem mem_addEnd {ends : List Endpoint} {e other : Endpoint} : other ∈ addEnd ends e ↔ other ∈ ends ∨ other = e := by
  unfold addEnd
  by_cases known : e ∈ ends
  · rw [if_pos known]
    exact ⟨.inl, fun member => member.elim id (fun same => same ▸ known)⟩
  · rw [if_neg known, List.mem_append, List.mem_singleton]

theorem nodup_addEnd {ends : List Endpoint} {e : Endpoint} (once : ends.Nodup) : (addEnd ends e).Nodup := by
  unfold addEnd
  by_cases known : e ∈ ends
  · rwa [if_pos known]
  · rw [if_neg known, ← List.concat_eq_append, List.nodup_concat]
    exact ⟨known, once⟩

theorem get?_record (portlet : String) (e : Endpoint) (ends : Table (List Endpoint)) (other : String) :
    ((record portlet e ends).get? other).getD [] =
      if other = portlet then addEnd ((ends.get? other).getD []) e else (ends.get? other).getD [] := by
  unfold record
  rw [Table.get?_insert]
  by_cases same : other = portlet
  · rw [if_pos same, if_pos same, same]
    rfl
  · rw [if_neg same, if_neg same]

/-- Recording what is recorded changes nothing. -/
theorem record_of_mem {portlet : String} {e : Endpoint} {ends : Table (List Endpoint)}
    (known : e ∈ (ends.get? portlet).getD []) : record portlet e ends = ends := by
  unfold record
  cases found : ends.get? portlet with
  | none => simp [found] at known
  | some list =>
    rw [found, Option.getD_some] at known
    simp only [Option.getD_some, if_pos known]
    exact Table.insert_of_get? found

/-- `t` is `g` with the connection recorded once at each of its ends. -/
structure Adds (g : Graph) (c : Connection) (t : Graph) : Prop where
  nodes : t.nodes.entries.map (fun entry => (entry.1, entry.2.unconnected)) =
    g.nodes.entries.map (fun entry => (entry.1, entry.2.unconnected))
  ends : ∀ side e, t.endsAt side e =
    if e = c.endAt side then addEnd (g.endsAt side e) (c.endAt side.opposite) else g.endsAt side e

/-- What connecting makes of the node under an id. -/
def joinNode (c : Connection) (id : String) (n : Node) : Node :=
  { n with
    sinks := if id = c.source.node then record c.source.portlet c.sink n.sinks else n.sinks
    sources := if id = c.sink.node then record c.sink.portlet c.source n.sources else n.sources }

/-- What connecting makes of a graph. -/
def joined (g : Graph) (c : Connection) : Graph :=
  ⟨(g.nodes.modify c.source.node (fun n => { n with sinks := record c.source.portlet c.sink n.sinks })).modify c.sink.node
    (fun n => { n with sources := record c.sink.portlet c.source n.sources })⟩

theorem entries_joined (g : Graph) (c : Connection) :
    (g.joined c).nodes.entries = g.nodes.entries.map (fun entry => (entry.1, joinNode c entry.1 entry.2)) := by
  change List.map _ (List.map _ g.nodes.entries) = _
  rw [List.map_map]
  refine List.map_congr_left (fun entry _ => ?_)
  simp only [Function.comp_apply, joinNode]
  split <;> split <;> rfl

theorem get?_joined (g : Graph) (c : Connection) (id : String) :
    (g.joined c).get? id = (g.get? id).map (joinNode c id) := by
  unfold joined get?
  rw [Table.get?_modify, Table.get?_modify]
  cases g.nodes.get? id with
  | none => simp
  | some n =>
    simp only [Option.map_some, joinNode]
    split <;> split <;> rfl

theorem records_joinNode (c : Connection) (id : String) (n : Node) (side : PortletSide) :
    (joinNode c id n).records side =
      if id = (c.endAt side).node then record (c.endAt side).portlet (c.endAt side.opposite) (n.records side)
      else n.records side := by
  cases side <;> rfl

theorem endsOf_joinNode (c : Connection) (id : String) (n : Node) (side : PortletSide) (portlet : String) :
    (joinNode c id n).endsOf side portlet =
      if ⟨id, portlet⟩ = c.endAt side then addEnd (n.endsOf side portlet) (c.endAt side.opposite)
      else n.endsOf side portlet := by
  rw [Node.endsOf_eq, Node.endsOf_eq, records_joinNode]
  by_cases here : id = (c.endAt side).node
  · have same : (⟨id, portlet⟩ : Endpoint) = c.endAt side ↔ portlet = (c.endAt side).portlet := by
      rw [here]
      exact ⟨fun same => congrArg Endpoint.portlet same, fun same => by rw [same]⟩
    simp only [if_pos here, get?_record, same]
  · rw [if_neg here, if_neg (fun same => here (congrArg Endpoint.node same))]

section Connect
variable (ends : ∀ side, g.Declares side (c.endAt side))

include ends in
theorem adds_joined : g.Adds c (g.joined c) := by
  constructor
  · rw [entries_joined, List.map_map]
    rfl
  · intro side e
    cases found : g.get? e.node with
    | none =>
      have elsewhere : e ≠ c.endAt side := by
        rintro rfl
        obtain ⟨n, present, _⟩ := ends side
        cases found.symm.trans present
      rw [if_neg elsewhere, endsAt, endsAt, get?_joined, found]
      rfl
    | some n =>
      have kept : (g.joined c).get? e.node = some (joinNode c e.node n) := by rw [get?_joined, found, Option.map_some]
      rw [endsAt_of_get? kept, endsAt_of_get? found, endsOf_joinNode]

theorem Adds.mem_endsAt_iff {t : Graph} (adds : g.Adds c t) {side : PortletSide} {e other : Endpoint} :
    other ∈ t.endsAt side e ↔ other ∈ g.endsAt side e ∨ (e = c.endAt side ∧ other = c.endAt side.opposite) := by
  rw [adds.ends]
  by_cases here : e = c.endAt side
  · rw [if_pos here, mem_addEnd]
    simp only [here, true_and]
  · rw [if_neg here]
    simp only [here, false_and, or_false]

include ends in
theorem Paired.joined (paired : g.Paired) : (g.joined c).Paired := by
  have adds := adds_joined ends
  have declares : ∀ {side e}, g.Declares side e → (g.joined c).Declares side e := by
    rintro side e ⟨n, found, declared⟩
    refine ⟨joinNode c e.node n, by rw [get?_joined, found, Option.map_some], ?_⟩
    cases side <;> exact declared
  refine ⟨fun {id n} found => ?_, fun side id n found portlet member => ?_, fun side e other listed => ?_,
    fun source sink => ?_⟩
  · obtain ⟨old, present, rfl⟩ := Option.map_eq_some_iff.mp ((get?_joined g c id).symm.trans found)
    exact paired.keyed (n := old) present
  · obtain ⟨old, present, rfl⟩ := Option.map_eq_some_iff.mp ((get?_joined g c id).symm.trans found)
    have known : portlet ∈ (old.portlets side).keys := by
      rw [records_joinNode] at member
      by_cases here : id = (c.endAt side).node
      · rw [if_pos here, record, Table.mem_keys_insert] at member
        rcases member with rfl | before
        · obtain ⟨n, endFound, declared⟩ := ends side
          cases (here ▸ present).symm.trans endFound
          exact declared
        · exact paired.recorded side present portlet before
      · rw [if_neg here] at member
        exact paired.recorded side present portlet member
    cases side <;> exact known
  · rcases adds.mem_endsAt_iff.mp listed with before | ⟨_, rfl⟩
    · exact declares (paired.declared side e other before)
    · exact declares (ends side.opposite)
  · rw [adds.mem_endsAt_iff, adds.mem_endsAt_iff, paired.both source sink]
    exact or_congr_right and_comm

/-- Connecting succeeds exactly if both ends are declared. -/
theorem connect_eq_ok_iff {t : Graph} :
    g.connect c.source c.sink = .ok t ↔ (∀ side, g.Declares side (c.endAt side)) ∧ t = g.joined c := by
  simp only [connect, bind_eq_ok_iff, node_eq_ok_iff]
  constructor
  · rintro ⟨n, found, _, declared, m, mFound, _, mDeclared, same⟩
    refine ⟨fun side => ?_, (Except.ok.inj same).symm⟩
    cases side with
    | inlets => exact ⟨m, mFound, Node.discard_inlet_eq_ok_iff.mp mDeclared⟩
    | outlets => exact ⟨n, found, Node.discard_outlet_eq_ok_iff.mp declared⟩
  · rintro ⟨ends, rfl⟩
    obtain ⟨n, found, declared⟩ := ends .outlets
    obtain ⟨m, mFound, mDeclared⟩ := ends .inlets
    exact ⟨n, found, (), Node.discard_outlet_eq_ok_iff.mpr declared, m, mFound, (),
      Node.discard_inlet_eq_ok_iff.mpr mDeclared, rfl⟩

end Connect

theorem joinNode_of_known {id : String} (found : g.get? id = some n)
    (known : ∀ side, c.endAt side.opposite ∈ g.endsAt side (c.endAt side)) : joinNode c id n = n := by
  have fixed : ∀ side, (joinNode c id n).records side = n.records side := by
    intro side
    rw [records_joinNode]
    by_cases here : id = (c.endAt side).node
    · have listed := known side
      rw [endsAt_of_get? (here ▸ found), Node.endsOf_eq] at listed
      rw [if_pos here, record_of_mem listed]
    · rw [if_neg here]
  have sources : (joinNode c id n).sources = n.sources := fixed .inlets
  have sinks : (joinNode c id n).sinks = n.sinks := fixed .outlets
  calc joinNode c id n = { n with sources := (joinNode c id n).sources, sinks := (joinNode c id n).sinks } := rfl
    _ = n := by rw [sources, sinks]

theorem joined_of_known (known : ∀ side, c.endAt side.opposite ∈ g.endsAt side (c.endAt side)) : g.joined c = g := by
  apply ext
  apply Table.ext
  have fixed : ∀ entry ∈ g.nodes.entries, (entry.1, joinNode c entry.1 entry.2) = entry := by
    intro entry member
    rw [joinNode_of_known (Table.get?_eq_some_iff.mpr member) known]
  rw [entries_joined, List.map_congr_left fixed, List.map_id']

/-- A connection that is there is not recorded again. -/
theorem Paired.connect_known (paired : g.Paired) (known : c.sink ∈ g.endsAt .outlets c.source) :
    g.connect c.source c.sink = .ok g := by
  have recorded : ∀ side, c.endAt side.opposite ∈ g.endsAt side (c.endAt side) := by
    intro side
    cases side with
    | inlets => exact (paired.both c.source c.sink).mp known
    | outlets => exact known
  refine connect_eq_ok_iff.mpr ⟨fun side => ?_, (joined_of_known recorded).symm⟩
  cases side with
  | inlets => exact paired.declared .outlets c.source c.sink known
  | outlets => exact paired.declared .inlets c.sink c.source (recorded .inlets)

/-- The graph after a call that connects two portlets; it is the same if the call fails. -/
def tryConnect (g : Graph) (c : Connection) : Graph :=
  match g.connect c.source c.sink with
  | .ok t => t
  | .error _ => g

/-- The graph is made from the empty one by inserting new nodes without connections and by calls that connect portlets,
    whatever these calls answer. -/
inductive Built : Graph → Prop where
  | empty : Built .empty
  | insert {g : Graph} {n : Node} (built : Built g) (fresh : n.id ∉ g.nodes.keys) (free : n.Free) : Built (g.insert n)
  | connect {g : Graph} (built : Built g) (c : Connection) : Built (g.tryConnect c)

/-- What holds of a graph that is built step by step. -/
theorem Built.paired {g : Graph} (built : g.Built) : g.Paired ∧ ∀ side e, (g.endsAt side e).Nodup := by
  induction built with
  | empty => exact ⟨paired_empty, fun _ _ => .nil⟩
  | insert _ fresh free ih =>
    refine ⟨ih.1.insert free fresh, fun side e => ?_⟩
    rw [endsAt_insert free fresh]
    exact ih.2 side e
  | @connect g _ c ih =>
    unfold tryConnect
    cases result : g.connect c.source c.sink with
    | error _ => exact ih
    | ok t =>
      obtain ⟨ends, rfl⟩ := connect_eq_ok_iff.mp result
      refine ⟨ih.1.joined ends, fun side e => ?_⟩
      rw [(adds_joined ends).ends]
      split
      next => exact nodup_addEnd (ih.2 side e)
      next => exact ih.2 side e

/-- The check accepts exactly the graphs whose connections are recorded at both ends. It accepts what is built step by step,
    where no end is recorded twice. Portlets that are declared can be connected, and then the connection is recorded once at
    each of its ends; a call that fails, or that repeats a connection, changes nothing. -/
theorem integrity_exact_and_maintained :
    (∀ g : Graph, g.checkIntegrity = .ok () ↔ g.Paired) ∧
    ∀ g : Graph, g.Built → g.checkIntegrity = .ok () ∧ (∀ side e, (g.endsAt side e).Nodup) ∧ ∀ c : Connection,
      ((∀ side, g.Declares side (c.endAt side)) → ∃ t, g.connect c.source c.sink = .ok t ∧ g.Adds c t) ∧
      ((¬∀ side, g.Declares side (c.endAt side)) → ∃ e, g.connect c.source c.sink = .error e ∧ g.tryConnect c = g) ∧
      (c.sink ∈ g.endsAt .outlets c.source → g.connect c.source c.sink = .ok g ∧ g.tryConnect c = g) := by
  refine ⟨fun g => checkIntegrity_eq_ok_iff_paired, fun g built => ?_⟩
  obtain ⟨paired, once⟩ := built.paired
  refine ⟨checkIntegrity_eq_ok_iff_paired.mpr paired, once, fun c => ⟨fun ends => ?_, fun undeclared => ?_, fun known => ?_⟩⟩
  · exact ⟨g.joined c, connect_eq_ok_iff.mpr ⟨ends, rfl⟩, adds_joined ends⟩
  · cases result : g.connect c.source c.sink with
    | ok t => exact absurd (connect_eq_ok_iff.mp result).1 undeclared
    | error e => exact ⟨e, rfl, by rw [tryConnect, result]⟩
  · have result := paired.connect_known known
    exact ⟨result, by rw [tryConnect, result]⟩

/-- An oscillator that is connected to itself, with a second call for the same connection and a call for a node that does not
    exist. -/
def selfFedPatch : Graph :=
  ((Graph.empty.insert (((Node.bare "osc" "osc").withInlet "0" .signal).withOutlet "0" .signal)).tryConnect
    ⟨⟨"osc", "0"⟩, ⟨"osc", "0"⟩⟩ |>.tryConnect ⟨⟨"osc", "0"⟩, ⟨"osc", "0"⟩⟩).tryConnect ⟨⟨"osc", "0"⟩, ⟨"out", "0"⟩⟩

theorem integrity_exact_and_maintained_selfFed :
    selfFedPatch.Built ∧ selfFedPatch.checkIntegrity = .ok () ∧
    selfFedPatch.endsAt .outlets ⟨"osc", "0"⟩ = [⟨"osc", "0"⟩] ∧ selfFedPatch.endsAt .inlets ⟨"osc", "0"⟩ = [⟨"osc", "0"⟩] ∧
    selfFedPatch.connect ⟨"osc", "0"⟩ ⟨"osc", "0"⟩ = .ok selfFedPatch ∧
    ∃ e, selfFedPatch.connect ⟨"osc", "0"⟩ ⟨"out", "0"⟩ = .error e ∧
      selfFedPatch.tryConnect ⟨⟨"osc", "0"⟩, ⟨"out", "0"⟩⟩ = selfFedPatch := by
  have free : (((Node.bare "osc" "osc").withInlet "0" .signal).withOutlet "0" .signal).Free := by
    intro side
    cases side <;> exact List.forall_mem_nil _
  have built : selfFedPatch.Built := (((Built.empty.insert (List.not_mem_nil) free).connect _).connect _).connect _
  have sinks : selfFedPatch.endsAt .outlets ⟨"osc", "0"⟩ = [⟨"osc", "0"⟩] := by decide +kernel
  obtain ⟨accepted, _, connects⟩ := integrity_exact_and_maintained.2 selfFedPatch built
  refine ⟨built, accepted, sinks, by decide +kernel, ?_, ?_⟩
  · exact ((connects ⟨⟨"osc", "0"⟩, ⟨"osc", "0"⟩⟩).2.2 (by rw [sinks]; exact List.mem_cons_self)).1
  · refine (connects ⟨⟨"osc", "0"⟩, ⟨"out", "0"⟩⟩).2.1 (fun ends => ?_)
    obtain ⟨n, found, _⟩ := ends .inlets
    cases found

end Graph
end DspPatch
