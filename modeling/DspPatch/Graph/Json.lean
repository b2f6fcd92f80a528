import DspPatch.Graph.Integrity
import DspPatch.Json.Decode

/-!
Graphs as JSON documents: an object with a node record under every key. The text of a graph writes every field of every
node, so it determines the graph.
-/
namespace DspPatch
open Json

def PortletKind.text : PortletKind → String
  | signal => "signal"
  | message => "message"

def PortletKind.ofText? : String → Option PortletKind
  | "signal" => some signal
  | "message" => some message
  | _ => none

/-- A kind is spelled by its name, or by an object that holds null under its name. -/
def PortletKind.decode : Decoder PortletKind
  | _, .string text => text.bind ofText?
  | _ + 1, .object [(name, .null)] => name.bind ofText?
  | _, _ => none

def Portlet.decode : Decoder Portlet := fun room document => do
  let fields ← Fields.ofDocument? ["id", "type"] true room document
  return ⟨← fields.required "id" .text, ← fields.required "type" PortletKind.decode⟩

def Portlet.toJson (p : Portlet) : Value := .object [("id", .string p.id), ("type", .string p.kind.text)]

def Endpoint.decode : Decoder Endpoint := fun room document => do
  let fields ← Fields.ofDocument? ["nodeId", "portletId"] true room document
  return ⟨← fields.required "nodeId" .text, ← fields.required "portletId" .text⟩

def Endpoint.toJson (e : Endpoint) : Value := .object [("nodeId", .string e.node), ("portletId", .string e.portlet)]

def Connection.toJson (c : Connection) : Value := .object [("source", c.source.toJson), ("sink", c.sink.toJson)]

namespace Node

/-- The fields of a node record, in order. -/
def fieldNames : List String :=
  ["id", "type", "args", "inlets", "outlets", "sources", "sinks", "isPullingSignal", "isPushingMessages"]

def decode : Decoder Node := fun room document => do
  let fields ← Fields.ofDocument? fieldNames true room document
  return {
    id := ← fields.required "id" .text
    type := ← fields.required "type" .text
    args := ← fields.withDefault "args" (.table .value) ∅
    inlets := ← fields.withDefault "inlets" (.table Portlet.decode) ∅
    outlets := ← fields.withDefault "outlets" (.table Portlet.decode) ∅
    sources := ← fields.withDefault "sources" (.table (.list Endpoint.decode)) ∅
    sinks := ← fields.withDefault "sinks" (.table (.list Endpoint.decode)) ∅
    isPullingSignal := ← fields.withDefault "isPullingSignal" .flag false
    isPushingMessages := ← fields.withDefault "isPushingMessages" .flag false }

def toJson (n : Node) : Value :=
  let ends (t : Table (List Endpoint)) := Value.ofTable (fun list => .array (list.map Endpoint.toJson)) t
  .object [("id", .string n.id), ("type", .string n.type), ("args", Value.ofTable (fun value => value) n.args),
    ("inlets", Value.ofTable Portlet.toJson n.inlets), ("outlets", Value.ofTable Portlet.toJson n.outlets),
    ("sources", ends n.sources), ("sinks", ends n.sinks),
    ("isPullingSignal", .bool n.isPullingSignal), ("isPushingMessages", .bool n.isPushingMessages)]

end Node

namespace Graph

/-- The graph a text spells, whether or not it has integrity. -/
def readUnchecked (text : String) : Except CompileError Graph :=
  match (Decoder.table Node.decode).run text with
  | some nodes => .ok ⟨nodes⟩
  | none => .error (.graph .nowhere .unreadable)

/-- The graph a text spells; it has to have integrity. -/
def read (text : String) : Except CompileError Graph := do
  let g ← readUnchecked text
  g.checkIntegrity
  return g

def toJson (g : Graph) : Value := Value.ofTable Node.toJson g.nodes

/-- The text of a graph, with every field written. -/
def text (g : Graph) : String := g.toJson.compact

end Graph
end DspPatch
