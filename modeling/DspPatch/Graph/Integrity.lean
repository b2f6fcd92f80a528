import DspPatch.Graph.Basic

/-!
Integrity of a graph: every node stands under its id, every connection names declared portlets of existing nodes, and
both records of every connection agree. Connecting two portlets keeps it.
-/
namespace DspPatch.Graph

/-- A sink of `outlet` has to exist, to be declared and to list `outlet` among its sources. -/
def checkSink (g : Graph) (n : Node) (outlet : String) (sink : Endpoint) : Except CompileError Unit := do
  match g.get? sink.node with
  | none => .error (.graph (.atPortlet n.id outlet) (.missingSink sink.node))
  | some target =>
    discard (target.inlet sink.portlet)
    if ⟨n.id, outlet⟩ ∈ target.sourcesOf sink.portlet then .ok ()
    else .error (.graph (.atPortlet n.id outlet) (.unmatchedSink sink.node sink.portlet))

/-- A source of `inlet` has to exist, to be declared and to list `inlet` among its sinks. -/
def checkSource (g : Graph) (n : Node) (inlet : String) (source : Endpoint) : Except CompileError Unit := do
  match g.get? source.node with
  | none => .error (.graph (.atPortlet n.id inlet) (.missingSource source.node))
  | some origin =>
    discard (origin.outlet source.portlet)
    if ⟨n.id, inlet⟩ ∈ origin.sinksOf source.portlet then .ok ()
    else .error (.graph (.atPortlet n.id inlet) (.unmatchedSource source.node source.portlet))

/-- A node has to stand under its id; its sinks are checked before its sources. -/
def checkNode (g : Graph) (key : String) (n : Node) : Except CompileError Unit := do
  if key ≠ n.id then throw (.graph (.atNode key) (.misplacedNode key n.id))
  n.sinks.entries.forM (fun (outlet, sinks) => do
    discard (n.outlet outlet)
    sinks.forM (g.checkSink n outlet))
  n.sources.entries.forM (fun (inlet, sources) => do
    discard (n.inlet inlet)
    sources.forM (g.checkSource n inlet))

/-- The first violation of integrity, node by node. -/
def checkIntegrity (g : Graph) : Except CompileError Unit :=
  g.nodes.entries.forM (fun (key, n) => g.checkNode key n)

/-- `endpoint` recorded under `portlet`, unless it is there already. -/
def record (portlet : String) (endpoint : Endpoint) (ends : Table (List Endpoint)) : Table (List Endpoint) :=
  let known := (ends.get? portlet).getD []
  ends.insert portlet (if endpoint ∈ known then known else known ++ [endpoint])

/-- Connect an outlet to an inlet, in both records. Both ends have to be declared. -/
def connect (g : Graph) (source sink : Endpoint) : Except CompileError Graph := do
  discard ((← g.node source.node).outlet source.portlet)
  discard ((← g.node sink.node).inlet sink.portlet)
  let nodes := g.nodes.modify source.node (fun n => { n with sinks := record source.portlet sink n.sinks })
  return ⟨nodes.modify sink.node (fun n => { n with sources := record sink.portlet source n.sources })⟩

end DspPatch.Graph
