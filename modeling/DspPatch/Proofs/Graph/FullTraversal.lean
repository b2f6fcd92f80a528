import DspPatch.Draft.Partition
import DspPatch.Proofs.Graph.SignalWalk
import DspPatch.Proofs.Graph.Trim
import DspPatch.Proofs.Search

/-!
The full traversal. In a well-formed graph it fails only when the host calls a node that does not exist. It lists the
nodes that some pulling node depends on first, in depth-first order, and then the other nodes that messages reach. On the
trimmed graph this first part is what the partition works on.
-/
namespace DspPatch.Graph
open Relation
variable {g : Graph}

/-- A pulling node gets signals from `v`, or is `v`. -/
def Pulled (g : Graph) (v : String) : Prop :=
  ∃ root n, g.get? root = some n ∧ n.isPullingSignal = true ∧ ReflTransGen (g.Feeds .signal) v root

/-- `x` feeds `y` and runs before it. -/
def RunsInto (g : Graph) (order : List String) (x y : String) : Prop := g.Feeds .signal x y ∧ [x, y].Sublist order

/-- The pulled nodes, each once. A source runs before the node it feeds, unless that node feeds it in turn along
    connections that all lead forward. -/
structure RunOrder (g : Graph) (order : List String) : Prop where
  nodup : order.Nodup
  mem_iff : ∀ v, v ∈ order ↔ g.Pulled v
  known : ∀ v ∈ order, ∃ n, g.get? v = some n
  sourcesFirst : ∀ v ∈ order, ∀ u, g.Feeds .signal u v →
    [u, v].Sublist order ∨ ReflTransGen (g.RunsInto order) v u

/-- Sources of pulled nodes are pulled. -/
theorem Pulled.source {u v : String} (pulled : g.Pulled v) (feeds : g.Feeds .signal u v) : g.Pulled u := by
  obtain ⟨root, n, found, pulls, chain⟩ := pulled
  exact ⟨root, n, found, pulls, .head feeds chain⟩

theorem Pulled.present {v : String} (pulled : g.Pulled v) : ∃ n, g.get? v = some n := by
  obtain ⟨root, n, found, _, chain⟩ := pulled
  rcases chain.cases_head with rfl | ⟨_, feeds, _⟩
  · exact ⟨n, found⟩
  · exact feeds.source_exists

theorem mem_pullingIds_iff (keyed : ∀ {key n}, g.get? key = some n → n.id = key) {id : String} :
    id ∈ g.pullingIds ↔ ∃ n, g.get? id = some n ∧ n.isPullingSignal = true := by
  simp only [pullingIds, List.mem_map, List.mem_filter, Table.mem_values_iff]
  constructor
  · rintro ⟨n, ⟨⟨key, found⟩, pulls⟩, rfl⟩
    obtain rfl := keyed found
    exact ⟨n, found, pulls⟩
  · rintro ⟨n, found, pulls⟩
    exact ⟨n, ⟨⟨id, found⟩, pulls⟩, keyed found⟩

theorem mem_pushingIds_iff (keyed : ∀ {key n}, g.get? key = some n → n.id = key) {id : String} :
    id ∈ g.pushingIds ↔ ∃ n, g.get? id = some n ∧ n.isPushingMessages = true := by
  simp only [pushingIds, List.mem_map, List.mem_filter, Table.mem_values_iff]
  constructor
  · rintro ⟨n, ⟨⟨key, found⟩, pushes⟩, rfl⟩
    obtain rfl := keyed found
    exact ⟨n, found, pushes⟩
  · rintro ⟨n, found, pushes⟩
    exact ⟨n, ⟨⟨id, found⟩, pushes⟩, keyed found⟩

theorem mem_ids_iff (keyed : ∀ {key n}, g.get? key = some n → n.id = key) {id : String} :
    id ∈ g.nodes.values.map Node.id ↔ ∃ n, g.get? id = some n := by
  simp only [List.mem_map, Table.mem_values_iff]
  constructor
  · rintro ⟨n, ⟨key, found⟩, rfl⟩
    exact ⟨n, keyed found ▸ found⟩
  · rintro ⟨n, found⟩
    exact ⟨n, ⟨id, found⟩, keyed found⟩

/-- In a well-formed graph the walk lists nodes by the connections they have. -/
theorem reflTransGen_explores_iff (wf : g.WellFormed) {u v : String} :
    ReflTransGen (g.Explores (fun _ => true)) u v ↔ ReflTransGen (g.Feeds .signal) v u := by
  have swapped : g.Explores (fun _ => true) = Function.swap (g.Feeds .signal) := by
    funext v u
    exact propext (explores_iff_feeds wf)
  rw [swapped, reflTransGen_swap]

/-- A sink of a message outlet of `u` is at `v`. -/
def SendsTo (g : Graph) (u v : String) : Prop :=
  ∃ n, g.get? u = some n ∧ ∃ outlet ∈ n.outletsOf .message, ∃ sink ∈ n.sinksOf outlet.id, sink.node = v

/-- The error names a sink of a message outlet of `n` at a node that does not exist. -/
def SinkFault (g : Graph) (n : Node) (e : CompileError) : Prop :=
  ∃ outlet ∈ n.outletsOf .message, ∃ sink ∈ n.sinksOf outlet.id, g.get? sink.node = none ∧
    e = .graph (.atPortlet n.id outlet.id) (.missingSink sink.node)

/-- The nodes a node sends to are known if all of them exist. -/
theorem messageTargets_yields (keyed : ∀ {key n}, g.get? key = some n → n.id = key) {v : String} {n : Node}
    (found : g.get? v = some n) :
    Yields (g.messageTargets n) (fun list => (∀ w, g.SendsTo v w → ∃ m ∈ list, g.get? w = some m) ∧
      ∀ m ∈ list, g.SendsTo v m.id ∧ g.get? m.id = some m) (g.SinkFault n) := by
  refine Yields.bind (Yields.mapM (fun outlet member => Yields.mapM (fun sink listed =>
    show Yields _ (fun target => g.get? sink.node = some target) _ from ?_))) (fun groups related => ⟨?_, fun m member => ?_⟩)
  · cases targetFound : g.get? sink.node with
    | none => exact ⟨outlet, member, sink, listed, targetFound, rfl⟩
    | some target => rfl
  · rintro w ⟨source, sourceFound, outlet, outletListed, sink, sinkListed, rfl⟩
    cases found.symm.trans sourceFound
    obtain ⟨group, groupListed, sinks⟩ := exists_right_of_forall₂ related outletListed
    obtain ⟨target, inside, sinkFound⟩ := exists_right_of_forall₂ sinks sinkListed
    exact ⟨target, List.mem_flatten.mpr ⟨group, groupListed, inside⟩, sinkFound⟩
  · obtain ⟨group, listed, inside⟩ := List.mem_flatten.mp member
    obtain ⟨outlet, outletListed, sinks⟩ := exists_left_of_forall₂ related listed
    obtain ⟨sink, sinkListed, targetFound⟩ := exists_left_of_forall₂ sinks inside
    have same : m.id = sink.node := keyed targetFound
    exact ⟨⟨n, found, outlet, outletListed, sink, sinkListed, same.symm⟩, same ▸ targetFound⟩

/-- What a message walk lists. -/
structure MessageOrder (g : Graph) (roots order : List String) : Prop where
  nodup : order.Nodup
  mem_iff : ∀ v, v ∈ order ↔ ∃ root ∈ roots, ReflTransGen g.SendsTo root v
  known : ∀ v ∈ order, ∃ n, g.get? v = some n

section Search
variable {roots : List String} {starts found : List Node}

theorem sendsTo_of_leads (keyed : ∀ {key n}, g.get? key = some n → n.id = key) {x y : Node}
    (xFound : g.get? x.id = some x)
    (chain : ReflTransGen (Search.Leads (g.nodes.values.map Node.id) Node.id g.messageTargets) x y) :
    g.get? y.id = some y ∧ ReflTransGen g.SendsTo x.id y.id := by
  induction chain with
  | refl => exact ⟨xFound, .refl⟩
  | tail _ step ih =>
    obtain ⟨list, targets, member, _⟩ := step
    obtain ⟨sends, targetFound⟩ := ((messageTargets_yields keyed ih.1).of_eq_ok targets).2 _ member
    exact ⟨targetFound, ih.2.tail sends⟩

/-- The nodes under the roots. -/
theorem starts_yields (present : ∀ root ∈ roots, ∃ n, g.get? root = some n) :
    Yields (roots.mapM g.node) (List.Forall₂ (fun id n => g.get? id = some n) roots) (fun _ => False) := by
  refine Yields.mapM (fun root member => ?_)
  obtain ⟨n, found⟩ := present root member
  rw [node_eq_ok_iff.mpr found]
  exact found

theorem mem_roots_of_start (keyed : ∀ {key n}, g.get? key = some n → n.id = key)
    (started : List.Forall₂ (fun id n => g.get? id = some n) roots starts)
    {x : Node} (member : x ∈ starts) : x.id ∈ roots ∧ g.get? x.id = some x := by
  obtain ⟨id, listed, present⟩ := exists_left_of_forall₂ started member
  obtain rfl := keyed present
  exact ⟨listed, present⟩

theorem sent_of_reached (keyed : ∀ {key n}, g.get? key = some n → n.id = key)
    (started : List.Forall₂ (fun id n => g.get? id = some n) roots starts)
    (reached : Search.Reached (g.nodes.values.map Node.id) Node.id g.messageTargets starts found) {n : Node}
    (listed : n ∈ found) : g.get? n.id = some n ∧ ∃ root ∈ roots, ReflTransGen g.SendsTo root n.id := by
  obtain ⟨y, start, _, chain⟩ := reached.reached n listed
  obtain ⟨root, present⟩ := mem_roots_of_start keyed started start
  obtain ⟨known, path⟩ := sendsTo_of_leads keyed present chain
  exact ⟨known, y.id, root, path⟩

/-- A search that has ended has gone along every message that its nodes send. -/
theorem leads_of_sendsTo (keyed : ∀ {key n}, g.get? key = some n → n.id = key)
    (started : List.Forall₂ (fun id n => g.get? id = some n) roots starts)
    (reached : Search.Reached (g.nodes.values.map Node.id) Node.id g.messageTargets starts found) {n : Node}
    (listed : n ∈ found) {v : String} (sends : g.SendsTo n.id v) :
    ∃ m ∈ found, m.id = v ∧ Search.Leads (g.nodes.values.map Node.id) Node.id g.messageTargets n m := by
  have known := (sent_of_reached keyed started reached listed).1
  obtain ⟨list, targets, closed⟩ := reached.closed n listed
  obtain ⟨target, isTarget, targetFound⟩ := ((messageTargets_yields keyed known).of_eq_ok targets).1 _ sends
  obtain rfl := keyed targetFound
  have inside := (mem_ids_iff keyed).mpr ⟨target, targetFound⟩
  obtain ⟨m, member, same⟩ := List.mem_map.mp (closed target isTarget inside)
  have mFound := (sent_of_reached keyed started reached member).1
  rw [same, targetFound] at mFound
  cases mFound
  exact ⟨target, member, rfl, list, targets, isTarget, inside⟩

theorem messageOrder_of_reached (keyed : ∀ {key n}, g.get? key = some n → n.id = key)
    (started : List.Forall₂ (fun id n => g.get? id = some n) roots starts)
    (reached : Search.Reached (g.nodes.values.map Node.id) Node.id g.messageTargets starts found) :
    g.MessageOrder roots (found.map Node.id) := by
  refine ⟨reached.nodup, fun v => ⟨fun member => ?_, ?_⟩, fun v member => ?_⟩
  · obtain ⟨n, listed, rfl⟩ := List.mem_map.mp member
    exact (sent_of_reached keyed started reached listed).2
  · rintro ⟨root, member, path⟩
    induction path with
    | refl =>
      obtain ⟨start, listed, present⟩ := exists_right_of_forall₂ started member
      obtain rfl := keyed present
      exact reached.rootsFound start listed ((mem_ids_iff keyed).mpr ⟨start, present⟩)
    | tail _ sends ih =>
      obtain ⟨n, listed, rfl⟩ := List.mem_map.mp ih
      obtain ⟨m, mListed, rfl, _⟩ := leads_of_sendsTo keyed started reached listed sends
      exact List.mem_map_of_mem mListed
  · obtain ⟨n, listed, rfl⟩ := List.mem_map.mp member
    exact ⟨n, (sent_of_reached keyed started reached listed).1⟩

/-- The message walk from existing roots lists the nodes that messages reach, each once, or fails at one that has a sink
    at a node that does not exist. -/
theorem messageTraversal_yields (keyed : ∀ {key n}, g.get? key = some n → n.id = key)
    (present : ∀ root ∈ roots, ∃ n, g.get? root = some n) :
    Yields (g.messageTraversal roots) (g.MessageOrder roots)
      (fun e => ∃ u n, (∃ root ∈ roots, ReflTransGen g.SendsTo root u) ∧ g.get? u = some n ∧ g.SinkFault n e) := by
  refine Yields.bind ((starts_yields present).mono (fun _ post => post) (fun _ bad => bad.elim)) (fun starts started => ?_)
  refine Yields.bind ((Search.breadthFirst_yields _ Node.id g.messageTargets starts).mono (fun _ post => post) ?_)
    (fun found reached => messageOrder_of_reached keyed started reached)
  rintro e ⟨x, ⟨y, member, chain⟩, failed⟩
  obtain ⟨root, yFound⟩ := mem_roots_of_start keyed started member
  obtain ⟨known, path⟩ := sendsTo_of_leads keyed yFound chain
  exact ⟨x.id, x, ⟨y.id, root, path⟩, known, (messageTargets_yields keyed known).of_eq_error failed⟩

/-- In a mirrored graph the message walk succeeds. -/
theorem messageTraversal_mirrored (mirrored : g.Mirrored) (present : ∀ root ∈ roots, ∃ n, g.get? root = some n) :
    ∃ order, g.messageTraversal roots = .ok order ∧ g.MessageOrder roots order := by
  refine Yields.exists_ok ((messageTraversal_yields mirrored.keyed present).mono (fun _ post => post) ?_)
  rintro e ⟨u, n, _, found, outlet, _, sink, listed, missing, _⟩
  obtain ⟨target, targetFound, _⟩ := mirrored.sinkDeclared found outlet.id sink listed
  cases missing.symm.trans targetFound

end Search

/-- A message walk lists no node twice. -/
theorem nodup_of_messageTraversal {roots order : List String} (walked : g.messageTraversal roots = .ok order) :
    order.Nodup := by
  obtain ⟨starts, _, walked⟩ := bind_eq_ok_iff.mp walked
  obtain ⟨found, searched, result⟩ := bind_eq_ok_iff.mp walked
  cases result
  exact ((Search.breadthFirst_yields _ _ _ starts).of_eq_ok searched).nodup

/-- What a second walk adds to a first one is listed once. -/
theorem nodup_append_filter {signal message : List String} (first : signal.Nodup) (second : message.Nodup) :
    (signal ++ message.filter (fun id => id ∉ signal)).Nodup := by
  rw [List.nodup_append]
  refine ⟨first, second.filter _, fun a before b later same => ?_⟩
  have outside := (List.mem_filter.mp later).2
  rw [decide_eq_true_eq] at outside
  exact outside (same ▸ before)

/-- The two parts of a full traversal. -/
structure Traversed (g : Graph) (signal rest : List String) : Prop where
  nodup : (signal ++ rest).Nodup
  known : ∀ v ∈ signal ++ rest, ∃ n, g.get? v = some n
  signalOrder : g.SignalOrder (fun _ => true) g.pullingIds signal

/-- In a well-formed graph the full traversal fails only for a caller that does not exist. -/
theorem fullTraversal_yields (wf : g.WellFormed) (callers : List String) :
    Yields (g.fullTraversal callers) (fun full => ∃ signal rest, full = signal ++ rest ∧ g.Traversed signal rest)
      (fun _ => ∃ id ∈ callers, g.get? id = none) := by
  have called : Yields (callers.forM (fun id => discard (g.node id))) (fun _ => ∀ id ∈ callers, ∃ n, g.get? id = some n)
      (fun _ => ∃ id ∈ callers, g.get? id = none) := by
    refine Yields.forM (fun id member => ?_)
    unfold Graph.node
    cases found : g.get? id with
    | none => exact ⟨id, member, found⟩
    | some n => exact ⟨n, rfl⟩
  refine Yields.bind called (fun _ present => ?_)
  have pullingPresent : ∀ root ∈ g.pullingIds, ∃ n, g.get? root = some n := by
    intro root member
    obtain ⟨n, found, _⟩ := (mem_pullingIds_iff wf.keyed).mp member
    exact ⟨n, found⟩
  have rootsPresent : ∀ root ∈ g.pushingIds ++ callers.filter (fun id => id ∉ g.pushingIds),
      ∃ n, g.get? root = some n := by
    intro root member
    rcases List.mem_append.mp member with pushing | called
    · obtain ⟨n, found, _⟩ := (mem_pushingIds_iff wf.keyed).mp pushing
      exact ⟨n, found⟩
    · exact present root (List.mem_filter.mp called).1
  obtain ⟨signal, signalResult, signalOrder⟩ := signalTraversal_wellFormed wf pullingPresent
  obtain ⟨message, messageResult, messageOrder⟩ := messageTraversal_mirrored wf.toMirrored rootsPresent
  dsimp only
  rw [signalResult, messageResult]
  refine ⟨signal, message.filter (fun id => id ∉ signal), rfl, ?_, fun v member => ?_, signalOrder⟩
  · exact nodup_append_filter signalOrder.nodup messageOrder.nodup
  · rcases List.mem_append.mp member with first | later
    · exact signalOrder.known v first
    · exact messageOrder.known v (List.mem_filter.mp later).1

theorem Traversed.get?_trim {signal rest : List String} (walked : g.Traversed signal rest) (wf : g.WellFormed)
    {v : String} (member : v ∈ signal ++ rest) : ∃ n, (g.trim (signal ++ rest)).get? v = some n := by
  obtain ⟨n, found⟩ := walked.known v member
  exact ⟨trimNode _ n, (Graph.get?_trim wf.keyed).mpr ⟨n, found, member, rfl⟩⟩

/-- The first part of a full traversal is closed under sources. -/
theorem Traversed.source_mem {signal rest : List String} (walked : g.Traversed signal rest) (wf : g.WellFormed)
    {u v : String} (member : v ∈ signal) (feeds : g.Feeds .signal u v) : u ∈ signal := by
  obtain ⟨root, pulling, chain⟩ := (walked.signalOrder.mem_iff v).mp member
  exact (walked.signalOrder.mem_iff u).mpr ⟨root, pulling, chain.tail ((explores_iff_feeds wf).mpr feeds)⟩

theorem Traversed.mem_signal_iff {signal rest : List String} (walked : g.Traversed signal rest) (wf : g.WellFormed)
    (v : String) : v ∈ signal ↔ (g.trim (signal ++ rest)).Pulled v := by
  have trimmed : ∀ {u v}, v ∈ signal → g.Feeds .signal u v → (g.trim (signal ++ rest)).Feeds .signal u v := by
    intro u v member feeds
    exact (feeds_trim_iff wf).mpr ⟨feeds, List.mem_append_left _ (walked.source_mem wf member feeds),
      List.mem_append_left _ member⟩
  have pulled : ∀ root ∈ g.pullingIds, root ∈ signal := fun root pulling =>
    (walked.signalOrder.mem_iff root).mpr ⟨root, pulling, .refl⟩
  constructor
  · intro member
    obtain ⟨root, pulling, chain⟩ := (walked.signalOrder.mem_iff v).mp member
    obtain ⟨n, found, pulls⟩ := (mem_pullingIds_iff wf.keyed).mp pulling
    refine ⟨root, trimNode _ n, (Graph.get?_trim wf.keyed).mpr
      ⟨n, found, List.mem_append_left _ (pulled root pulling), rfl⟩, pulls, ?_⟩
    clear member
    -- From the root outwards every node of the chain is listed, so its connections survive.
    induction chain with
    | refl => exact .refl
    | @tail v u chain step ih =>
      have listed : v ∈ signal := (walked.signalOrder.mem_iff v).mpr ⟨root, pulling, chain⟩
      exact .head (trimmed listed ((explores_iff_feeds wf).mp step)) ih
  · rintro ⟨root, n, found, pulls, chain⟩
    obtain ⟨full, present, _, rfl⟩ := (Graph.get?_trim wf.keyed).mp found
    refine (walked.signalOrder.mem_iff v).mpr ⟨root, (mem_pullingIds_iff wf.keyed).mpr ⟨full, present, pulls⟩, ?_⟩
    exact (reflTransGen_explores_iff wf).mpr (ReflTransGen.mono (fun _ _ step => ((feeds_trim_iff wf).mp step).1) _ _ chain)

/-- Trimming keeps everything that a pulling node depends on. -/
theorem Traversed.pulled_trim_iff {signal rest : List String} (walked : g.Traversed signal rest) (wf : g.WellFormed)
    (v : String) : (g.trim (signal ++ rest)).Pulled v ↔ g.Pulled v := by
  rw [← walked.mem_signal_iff wf, walked.signalOrder.mem_iff]
  constructor
  · rintro ⟨root, pulling, chain⟩
    obtain ⟨n, found, pulls⟩ := (mem_pullingIds_iff wf.keyed).mp pulling
    exact ⟨root, n, found, pulls, (reflTransGen_explores_iff wf).mp chain⟩
  · rintro ⟨root, n, found, pulls, chain⟩
    exact ⟨root, (mem_pullingIds_iff wf.keyed).mpr ⟨n, found, pulls⟩, (reflTransGen_explores_iff wf).mpr chain⟩

/-- On the trimmed graph the first part of the full traversal is an order in which the pulled nodes run. -/
theorem Traversed.runOrder {signal rest : List String} (walked : g.Traversed signal rest) (wf : g.WellFormed) :
    (g.trim (signal ++ rest)).RunOrder signal := by
  refine ⟨walked.signalOrder.nodup, walked.mem_signal_iff wf,
    fun v member => walked.get?_trim wf (List.mem_append_left _ member), fun v member u feeds => ?_⟩
  have whole := ((feeds_trim_iff wf).mp feeds).1
  refine (walked.signalOrder.sourcesFirst v member u ((explores_iff_feeds wf).mpr whole)).imp_right (fun chain => ?_)
  refine ReflTransGen.mono (fun x y step => ⟨?_, step.2⟩) _ _ chain
  have listed : x ∈ signal ∧ y ∈ signal := ⟨step.2.subset (by simp), step.2.subset (by simp)⟩
  exact (feeds_trim_iff wf).mpr ⟨(explores_iff_feeds wf).mp step.1, List.mem_append_left _ listed.1,
    List.mem_append_left _ listed.2⟩

/-- The walk from the pulling nodes of a traversal finds the pulled nodes. -/
theorem signalTraversal_pulling (wf : g.WellFormed) {full : List String}
    (complete : ∀ v n, g.get? v = some n → n.isPullingSignal = true → v ∈ full) :
    ∃ signal, g.signalTraversal (fun _ => true) (Draft.pulling g full) = .ok signal ∧
      ∀ v, v ∈ signal ↔ g.Pulled v := by
  have pulling_iff : ∀ v, v ∈ Draft.pulling g full ↔ ∃ n, g.get? v = some n ∧ n.isPullingSignal = true := by
    intro v
    simp only [Draft.pulling, List.mem_filter, Option.any_eq_true]
    constructor
    · rintro ⟨_, n, found, pulls⟩
      exact ⟨n, found, pulls⟩
    · rintro ⟨n, found, pulls⟩
      exact ⟨complete v n found pulls, n, found, pulls⟩
  have present : ∀ root ∈ Draft.pulling g full, ∃ n, g.get? root = some n := by
    intro root member
    obtain ⟨n, found, _⟩ := (pulling_iff root).mp member
    exact ⟨n, found⟩
  obtain ⟨signal, result, order⟩ := signalTraversal_wellFormed wf present
  refine ⟨signal, result, fun v => (order.mem_iff v).trans ?_⟩
  constructor
  · rintro ⟨root, member, chain⟩
    obtain ⟨n, found, pulls⟩ := (pulling_iff root).mp member
    exact ⟨root, n, found, pulls, (reflTransGen_explores_iff wf).mp chain⟩
  · rintro ⟨root, n, found, pulls, chain⟩
    exact ⟨root, (pulling_iff root).mpr ⟨n, found, pulls⟩, (reflTransGen_explores_iff wf).mpr chain⟩

/-- The traversal lists the nodes of the graph, first those that run for a pulling node, in depth-first order. -/
structure Runnable (g : Graph) (full : List String) : Prop where
  wf : g.WellFormed
  nodup : full.Nodup
  complete : ∀ id, id ∈ full ↔ ∃ n, g.get? id = some n
  order : ∃ order rest, full = order ++ rest ∧ g.RunOrder order

theorem Traversed.runnable {signal rest : List String} (walked : g.Traversed signal rest) (wf : g.WellFormed) :
    (g.trim (signal ++ rest)).Runnable (signal ++ rest) := by
  refine ⟨wellFormed_trim wf _, walked.nodup, fun id => ⟨fun member => walked.get?_trim wf member, ?_⟩,
    signal, rest, rfl, walked.runOrder wf⟩
  rintro ⟨n, found⟩
  obtain ⟨_, _, member, _⟩ := (Graph.get?_trim wf.keyed).mp found
  exact member

theorem runnable_of_fullTraversal (wf : g.WellFormed) {callers full : List String}
    (traversal : g.fullTraversal callers = .ok full) : (g.trim full).Runnable full := by
  obtain ⟨signal, rest, rfl, walked⟩ := (fullTraversal_yields wf callers).of_eq_ok traversal
  exact walked.runnable wf

/-- The nodes of the traversal that the signal walk finds are its first part. -/
theorem Runnable.runOrder {full signal : List String} (runnable : g.Runnable full) (walked : ∀ v, v ∈ signal ↔ g.Pulled v) :
    g.RunOrder (full.filter (fun id => signal.contains id)) := by
  obtain ⟨order, rest, rfl, run⟩ := runnable.order
  have first : order.filter (fun id => signal.contains id) = order := by
    refine List.filter_eq_self.mpr (fun v member => ?_)
    rw [List.contains_iff_mem, walked]
    exact (run.mem_iff v).mp member
  have others : rest.filter (fun id => signal.contains id) = [] := by
    refine List.filter_eq_nil_iff.mpr (fun v member => ?_)
    rw [List.contains_iff_mem, walked, ← run.mem_iff]
    exact fun both => (List.nodup_append.mp runnable.nodup).2.2 v both v member rfl
  rw [List.filter_append, first, others, List.append_nil]
  exact run

end DspPatch.Graph
