import DspPatch.Cycles
import DspPatch.Draft.Basic
import DspPatch.Search

/-!
Which nodes may be cold. A node is eligible if it is pure, does not pull, carries a signal, lies on no signal cycle and
has a signal outlet, and if all its signal sources are eligible. Eligible nodes that are connected form one cold group.
-/
namespace DspPatch.Cold

/-- The nodes that a node feeds with signals. -/
def signalSinks (g : Graph) (id : String) : List String :=
  match g.get? id with
  | some n => (n.sinkEndpoints .signal).map Endpoint.node
  | none => []

/-- The nodes that feed a node with signals. -/
def signalSources (g : Graph) (id : String) : List String :=
  match g.get? id with
  | some n => (n.sourceEndpoints .signal).map Endpoint.node
  | none => []

/-- The nodes that lie on a signal cycle of nodes of `order`. -/
def cycleMembers (g : Graph) (order : List String) : Except CompileError (List String) := do
  order.forM (fun id => discard (g.node id))
  return Cycles.members order (signalSinks g)

/-- What a node has to satisfy apart from its sources. -/
def isCandidate (r : Registry) (signal cyclic : List String) (n : Node) : Except CompileError Bool := do
  let i ← r.implementation n
  return i.flags.isPure && !n.isPullingSignal && signal.contains n.id && !cyclic.contains n.id &&
    !(n.outletsOf .signal).isEmpty

/-- Decide a node after its sources; `decided` holds the verdicts so far. Sources are looked at from the last to the
    first. `path` holds the nodes whose sources are being decided. -/
def decideFrom (g : Graph) (candidate : Node → Except CompileError Bool) (path : List String) (id : String)
    (decided : Table Bool) : Except CompileError (Table Bool) :=
  if decided.contains id then .ok decided
  else
    match _found : g.get? id with
    | none => .error (.missingNode id)
    | some n =>
      match candidate n with
      | .error e => .error e
      | .ok false => .ok (decided.insert id false)
      | .ok true =>
        if _fresh : id ∈ path then .error (.graph (.atNode id) .endlessWalk)
        else
          let sources := (n.sourceEndpoints .signal).map Endpoint.node
          (sources.reverse.foldlM (fun decided source => decideFrom g candidate (path ++ [id]) source decided) decided).map
            (fun decided => decided.insert id (sources.all (fun source => decided.get? source == some true)))
termination_by Search.unseen g.nodes.keys path
decreasing_by exact Search.unseen_append_lt (Table.mem_keys_of_get? ‹_›) ‹_›

/-- Decide nodes one after the other; the verdicts are shared. -/
def decideAll (g : Graph) (candidate : Node → Except CompileError Bool) (ids : List String) :
    Except CompileError (Table Bool) :=
  ids.foldlM (fun decided id => decideFrom g candidate [] id decided) ∅

/-- The eligible nodes of `order`. -/
def eligible (g : Graph) (r : Registry) (order signal : List String) : Except CompileError (List String) := do
  let cyclic ← cycleMembers g order
  let decided ← decideAll g (isCandidate r signal cyclic) order
  return order.filter (fun id => decided.get? id == some true)

/-- The eligible nodes that a node is connected to by signals in either direction. -/
def component (g : Graph) (eligible : List String) (id : String) : List String :=
  Search.reach eligible (fun id => id) (fun id => signalSinks g id ++ signalSources g id) [id]

/-- The components of the eligible nodes of `order`, by their first nodes. -/
def components (g : Graph) (eligible : List String) (order : List String) : List (List String) :=
  order.foldl (fun found id =>
    if eligible.contains id && !(found.any (fun members => members.contains id)) then
      found ++ [component g eligible id]
    else found) []

/-- The signal connections from nodes of `traversal` to nodes outside `members`, by node, outlet and sink. -/
def leaving (g : Graph) (traversal members : List String) : List Connection :=
  traversal.flatMap (fun id =>
    match g.get? id with
    | none => []
    | some n => (n.outletsOf .signal).flatMap (fun outlet =>
      ((n.sinksOf outlet.id).filter (fun sink => !members.contains sink.node)).map
        (fun sink => ⟨⟨id, outlet.id⟩, sink⟩)))

/-- The group of the given members, in the order in which nodes run, and the connections that leave it. -/
def group (g : Graph) (order members : List String) : Group × List Connection :=
  let traversal := order.filter (fun id => members.contains id)
  let connections := leaving g traversal members
  (⟨traversal, (connections.map (fun c => c.source.node)).eraseDups⟩, connections)

end DspPatch.Cold
