import DspPatch.Error
import DspPatch.Json.Value

/-!
Patch graphs. A node has inlets and outlets, each of them for a signal or for messages. Every connection is recorded
twice: among the sinks of the outlet it leaves and among the sources of the inlet it reaches.
-/
namespace DspPatch

/-- What passes through a portlet: one value a frame, or single messages. -/
inductive PortletKind where
  | signal
  | message
deriving DecidableEq, Repr, Inhabited

/-- An inlet or an outlet. -/
structure Portlet where
  id : String
  kind : PortletKind
deriving DecidableEq, Repr

/-- One end of a connection. -/
structure Endpoint where
  node : String
  portlet : String
deriving DecidableEq, Repr

/-- A connection from an outlet to an inlet. -/
structure Connection where
  source : Endpoint
  sink : Endpoint
deriving DecidableEq, Repr

structure Node where
  id : String
  type : String
  args : Table Json.Value
  inlets : Table Portlet
  outlets : Table Portlet
  /-- For each inlet the outlets that feed it. -/
  sources : Table (List Endpoint)
  /-- For each outlet the inlets it feeds. -/
  sinks : Table (List Endpoint)
  /-- Runs every frame even without sinks. -/
  isPullingSignal : Bool
  /-- Sends messages on its own account. -/
  isPushingMessages : Bool

namespace Node

/-- A node without portlets, arguments and connections. -/
def bare (id type : String) : Node := ⟨id, type, ∅, ∅, ∅, ∅, ∅, false, false⟩

def withInlet (n : Node) (id : String) (kind : PortletKind) : Node :=
  { n with inlets := n.inlets.insert id ⟨id, kind⟩ }

def withOutlet (n : Node) (id : String) (kind : PortletKind) : Node :=
  { n with outlets := n.outlets.insert id ⟨id, kind⟩ }

def inlet (n : Node) (id : String) : Except CompileError Portlet :=
  match n.inlets.get? id with
  | some portlet => .ok portlet
  | none => .error (.graph (.atPortlet n.id id) .undeclaredInlet)

def outlet (n : Node) (id : String) : Except CompileError Portlet :=
  match n.outlets.get? id with
  | some portlet => .ok portlet
  | none => .error (.graph (.atPortlet n.id id) .undeclaredOutlet)

/-- The inlets of a kind, in the order of their declaration. -/
def inletsOf (n : Node) (kind : PortletKind) : List Portlet := n.inlets.values.filter (fun p => p.kind = kind)

/-- The outlets of a kind, in the order of their declaration. -/
def outletsOf (n : Node) (kind : PortletKind) : List Portlet := n.outlets.values.filter (fun p => p.kind = kind)

/-- The outlets that feed an inlet, in the order in which they were connected. -/
def sourcesOf (n : Node) (inlet : String) : List Endpoint := (n.sources.get? inlet).getD []

/-- The inlets that an outlet feeds, in the order in which they were connected. -/
def sinksOf (n : Node) (outlet : String) : List Endpoint := (n.sinks.get? outlet).getD []

/-- The sinks of all outlets of a kind. -/
def sinkEndpoints (n : Node) (kind : PortletKind) : List Endpoint := (n.outletsOf kind).flatMap (fun o => n.sinksOf o.id)

/-- The sources of all inlets of a kind. -/
def sourceEndpoints (n : Node) (kind : PortletKind) : List Endpoint :=
  (n.inletsOf kind).flatMap (fun i => n.sourcesOf i.id)

/-- The connections that arrive at a node, inlet by inlet in the order of their declaration. -/
def sourceConnections (n : Node) : List Connection :=
  n.inlets.keys.flatMap (fun inlet => (n.sourcesOf inlet).map (fun source => ⟨source, ⟨n.id, inlet⟩⟩))

/-- The connections that leave a node, outlet by outlet in the order of their declaration. -/
def sinkConnections (n : Node) : List Connection :=
  n.outlets.keys.flatMap (fun outlet => (n.sinksOf outlet).map (fun sink => ⟨⟨n.id, outlet⟩, sink⟩))

end Node

/-- The nodes of a patch, each under its id. -/
structure Graph where
  nodes : Table Node

namespace Graph

/-- The graph without nodes. -/
def empty : Graph := ⟨∅⟩

instance : Inhabited Graph := ⟨empty⟩

def size (g : Graph) : Nat := g.nodes.size

def get? (g : Graph) (id : String) : Option Node := g.nodes.get? id

def node (g : Graph) (id : String) : Except CompileError Node :=
  match g.get? id with
  | some node => .ok node
  | none => .error (.missingNode id)

/-- Put a node under its id; a node that stands there is replaced in its place. -/
def insert (g : Graph) (node : Node) : Graph := ⟨g.nodes.insert node.id node⟩

/-- The nodes with the given ids, each id once, at its first place. -/
def nodesAt (g : Graph) (ids : List String) : Except CompileError (List Node) := ids.eraseDups.mapM g.node

/-- The nodes that a node feeds through outlets of a kind, each once. -/
def sinkNodes (g : Graph) (n : Node) (kind : PortletKind) : Except CompileError (List Node) :=
  g.nodesAt ((n.sinkEndpoints kind).map Endpoint.node)

/-- The nodes that feed a node through inlets of a kind, each once. -/
def sourceNodes (g : Graph) (n : Node) (kind : PortletKind) : Except CompileError (List Node) :=
  g.nodesAt ((n.sourceEndpoints kind).map Endpoint.node)

end Graph
end DspPatch
