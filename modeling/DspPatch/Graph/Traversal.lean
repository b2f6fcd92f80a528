import DspPatch.Graph.Basic
import DspPatch.Search

/-!
Walks over a graph. The signal walk follows sources and lists every node after the sources it depends on; a node that
is still being entered counts as listed, so feedback ends the walk. The message walk follows sinks, nearest first. The
full traversal joins both: it says which nodes are compiled, and in which order.
-/
namespace DspPatch.Graph

/-- The signal sources of a node as pairs of inlet and source node, in the order of the records. Only a declared inlet
    has a kind. -/
def signalSources (n : Node) : Except CompileError (List (String × String)) := do
  let groups ← n.sources.entries.mapM (fun (inlet, sources) => do
    let portlet ← n.inlet inlet
    return if portlet.kind = .signal then sources.map (fun source => (inlet, source.node)) else [])
  return groups.flatten

/-- Walk the sources of `n` and then list `n` itself. `path` holds the nodes that are being entered and `done` those
    that are listed. The first argument bounds the depth. -/
def walkFrom (g : Graph) (explore : Node → Bool) : Nat → List String → Node → List String →
    Except CompileError (List String)
  | 0, _, n, _ => .error (.graph (.atNode n.id) .endlessWalk)
  | depth + 1, path, n, done => do
    let sources ← if explore n then signalSources n else pure []
    let listed ← sources.foldlM (fun listed (inlet, id) =>
      match g.get? id with
      | none => .error (.graph (.atPortlet n.id inlet) (.missingSource id))
      | some source =>
        if id ∈ listed ∨ id = n.id ∨ id ∈ path then .ok listed
        else walkFrom g explore depth (n.id :: path) source listed) done
    return listed ++ [n.id]

/-- A depth that no walk exceeds: between two entries under the same key some id becomes known. -/
def walkDepth (g : Graph) : Nat := (g.size + 1) * (g.size + 1) + 1

/-- The roots and all signal sources behind them, sources first. The sources of a node are walked only if it is to be
    explored. -/
def signalTraversal (g : Graph) (explore : Node → Bool) (roots : List String) : Except CompileError (List String) :=
  roots.foldlM (fun done root => do
    let n ← g.node root
    if n.id ∈ done then return done else g.walkFrom explore g.walkDepth [] n done) []

/-- The nodes that a node sends messages to, in the order of its outlets. -/
def messageTargets (g : Graph) (n : Node) : Except CompileError (List Node) := do
  let groups ← (n.outletsOf .message).mapM (fun outlet =>
    (n.sinksOf outlet.id).mapM (fun sink =>
      match g.get? sink.node with
      | none => Except.error (.graph (.atPortlet n.id outlet.id) (.missingSink sink.node))
      | some target => .ok target))
  return groups.flatten

/-- The roots and all nodes that messages from them reach, nearest first. -/
def messageTraversal (g : Graph) (roots : List String) : Except CompileError (List String) := do
  let starts ← roots.mapM g.node
  let found ← Search.breadthFirst (g.nodes.values.map Node.id) Node.id g.messageTargets starts
  return found.map Node.id

/-- The nodes that pull a signal, in the order of the graph. -/
def pullingIds (g : Graph) : List String := (g.nodes.values.filter Node.isPullingSignal).map Node.id

/-- The nodes that push messages, in the order of the graph. -/
def pushingIds (g : Graph) : List String := (g.nodes.values.filter Node.isPushingMessages).map Node.id

/-- All nodes that run: the signal walk from the pulling nodes, then what the message walk adds from the pushing nodes
    and from the nodes that the host calls. -/
def fullTraversal (g : Graph) (callers : List String) : Except CompileError (List String) := do
  callers.forM (fun id => discard (g.node id))
  let messageRoots := g.pushingIds ++ callers.filter (fun id => id ∉ g.pushingIds)
  let signal ← g.signalTraversal (fun _ => true) g.pullingIds
  let message ← g.messageTraversal messageRoots
  return signal ++ message.filter (fun id => id ∉ signal)

end DspPatch.Graph
