import DspPatch.Graph.Basic

/-!
Trimming: a graph restricted to some of its nodes, with every connection to another node removed from both records.
-/
namespace DspPatch.Graph

/-- The ends at kept nodes; a portlet without ends left has no entry. -/
def keepEnds (keep : List String) (ends : Table (List Endpoint)) : Table (List Endpoint) :=
  (ends.map (fun list => list.filter (fun e => e.node ∈ keep))).filter (fun _ list => !list.isEmpty)

def trimNode (keep : List String) (n : Node) : Node :=
  { n with sources := keepEnds keep n.sources, sinks := keepEnds keep n.sinks }

/-- The graph restricted to the nodes under the keys `keep`, in its own order. -/
def trim (g : Graph) (keep : List String) : Graph :=
  ((g.nodes.filter (fun key _ => key ∈ keep)).values.map (trimNode keep)).foldl insert empty

end DspPatch.Graph
