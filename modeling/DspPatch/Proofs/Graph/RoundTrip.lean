import DspPatch.Graph.Json
import DspPatch.Proofs.Json.Decoding

/-!
Graphs and their text. The document written for a portlet, an endpoint or a node is decoded to what was written
(`Node.decode_toJson`). The arguments of a node are the only part of a graph that may fail to be read back: they can be
nested too deeply, hold whole numbers that are too large or doubles that do not read back. The first two cannot happen to
a graph that was read from a text (`Graph.fits_of_run`), and under the assumption on its doubles its text is
therefore read as the same graph.
-/
namespace DspPatch
open Json

theorem PortletKind.decode_text (room : Nat) (kind : PortletKind) :
    PortletKind.decode room (Value.string kind.text).document = some kind := by
  cases kind <;> rfl

theorem Portlet.decode_toJson (room : Nat) (p : Portlet) : Portlet.decode (room + 1) p.toJson.document = some p := by
  rw [Portlet.decode, Portlet.toJson]
  refine Option.bind_eq_some_iff.mpr ⟨_, Fields.ofDocument?_document (by rfl) (by decide) true room, ?_⟩
  exact Option.bind_eq_some_iff.mpr ⟨p.id, rfl, Option.bind_eq_some_iff.mpr
    ⟨p.kind, PortletKind.decode_text room p.kind, rfl⟩⟩

theorem Endpoint.decode_toJson (room : Nat) (e : Endpoint) : Endpoint.decode (room + 1) e.toJson.document = some e := by
  rw [Endpoint.decode, Endpoint.toJson]
  refine Option.bind_eq_some_iff.mpr ⟨_, Fields.ofDocument?_document (by rfl) (by decide) true room, ?_⟩
  exact Option.bind_eq_some_iff.mpr ⟨e.node, rfl, Option.bind_eq_some_iff.mpr ⟨e.portlet, rfl, rfl⟩⟩

theorem mem_doubles_ofTable {α : Type} (encode : α → Value) {t : Table α} {a : α} (member : a ∈ t.values) {x : Float}
    (inside : x ∈ (encode a).doubles) : x ∈ (Value.ofTable encode t).doubles := by
  obtain ⟨entry, listed, rfl⟩ := List.mem_map.mp member
  rw [Value.ofTable, Value.doubles, Value.memberDoubles_eq_flatMap, List.flatMap_map]
  exact List.mem_flatMap.mpr ⟨entry, listed, inside⟩

namespace Node

/-- A node is decoded from its document when its arguments are. -/
theorem decode_toJson {room : Nat} {n : Node} (args : ∀ v ∈ n.args.values, v.document.value? (room + 2) = some v) :
    Node.decode (room + 4) n.toJson.document = some n := by
  have portlets : ∀ t : Table Portlet,
      Decoder.table Portlet.decode (room + 3) (Value.ofTable Portlet.toJson t).document = some t :=
    fun t => table_document (fun p _ => Portlet.decode_toJson (room + 1) p)
  have ends : ∀ t : Table (List Endpoint), Decoder.table (.list Endpoint.decode) (room + 3)
      (Value.ofTable (fun list => .array (list.map Endpoint.toJson)) t).document = some t :=
    fun t => table_document (fun list _ => list_document (fun e _ => Endpoint.decode_toJson room e))
  rw [Node.decode, Node.toJson]
  refine Option.bind_eq_some_iff.mpr ⟨_, Fields.ofDocument?_document (by rfl) (by decide) true (room + 3), ?_⟩
  refine Option.bind_eq_some_iff.mpr ⟨n.id, rfl, Option.bind_eq_some_iff.mpr ⟨n.type, rfl, ?_⟩⟩
  refine Option.bind_eq_some_iff.mpr ⟨n.args, table_document args, ?_⟩
  refine Option.bind_eq_some_iff.mpr ⟨n.inlets, portlets n.inlets, ?_⟩
  refine Option.bind_eq_some_iff.mpr ⟨n.outlets, portlets n.outlets, ?_⟩
  refine Option.bind_eq_some_iff.mpr ⟨n.sources, ends n.sources, ?_⟩
  exact Option.bind_eq_some_iff.mpr ⟨n.sinks, ends n.sinks, rfl⟩

/-- The arguments of a decoded node are values of documents that stand two containers deeper. -/
theorem fits_of_decode {room : Nat} {document : Document} {n : Node} (isNode : Node.decode room document = some n) :
    ∀ v ∈ n.args.values, Fits (room - 2) v := by
  obtain ⟨fields, areFields, isNode⟩ := Option.bind_eq_some_iff.mp isNode
  obtain ⟨_, -, isNode⟩ := Option.bind_eq_some_iff.mp isNode
  obtain ⟨_, -, isNode⟩ := Option.bind_eq_some_iff.mp isNode
  obtain ⟨args, areArgs, isNode⟩ := Option.bind_eq_some_iff.mp isNode
  obtain ⟨_, -, isNode⟩ := Option.bind_eq_some_iff.mp isNode
  obtain ⟨_, -, isNode⟩ := Option.bind_eq_some_iff.mp isNode
  obtain ⟨_, -, isNode⟩ := Option.bind_eq_some_iff.mp isNode
  obtain ⟨_, -, isNode⟩ := Option.bind_eq_some_iff.mp isNode
  obtain ⟨_, -, isNode⟩ := Option.bind_eq_some_iff.mp isNode
  obtain ⟨_, -, isNode⟩ := Option.bind_eq_some_iff.mp isNode
  cases isNode
  rw [Fields.room_of_ofDocument? areFields]
  unfold Fields.withDefault at areArgs
  split at areArgs
  next written _ =>
    obtain ⟨less, isRoom, each⟩ := exists_of_table areArgs
    intro v member
    obtain ⟨inner, isValue⟩ := each v member
    rw [isRoom]
    exact fits_of_value? isValue
  next =>
    cases areArgs
    exact nofun

theorem mem_doubles_toJson {n : Node} {v : Value} (member : v ∈ n.args.values) {x : Float} (inside : x ∈ v.doubles) :
    x ∈ n.toJson.doubles := by
  rw [Node.toJson, Value.doubles, Value.memberDoubles_eq_flatMap]
  refine List.mem_flatMap.mpr ⟨("args", Value.ofTable (fun value => value) n.args), ?_, ?_⟩
  · exact .tail _ (.tail _ List.mem_cons_self)
  · exact mem_doubles_ofTable (fun value => value) member inside

end Node

namespace Graph
variable {t : String} {g : Graph}

theorem read_eq_ok_iff : Graph.read t = .ok g ↔
    (Decoder.table Node.decode).run t = some g.nodes ∧ g.checkIntegrity = .ok () := by
  have unchecked : ∀ g : Graph, readUnchecked t = .ok g ↔ (Decoder.table Node.decode).run t = some g.nodes := by
    intro g
    unfold readUnchecked
    split
    next nodes isTable =>
      rw [isTable, Option.some.injEq, Except.ok.injEq]
      exact ⟨fun same => same ▸ rfl, fun same => same ▸ rfl⟩
    next isNone =>
      rw [isNone]
      exact ⟨nofun, nofun⟩
  rw [Graph.read, bind_eq_ok_iff]
  constructor
  · rintro ⟨other, isRead, checked⟩
    obtain ⟨intact, same⟩ := then_eq_ok_iff.mp checked
    cases same
    exact ⟨(unchecked g).mp isRead, intact⟩
  · rintro ⟨isTable, intact⟩
    exact ⟨g, (unchecked g).mpr isTable, then_eq_ok_iff.mpr ⟨intact, rfl⟩⟩

/-- In a graph that was read, every argument fits where it stands. -/
theorem fits_of_run (isTable : (Decoder.table Node.decode).run t = some g.nodes) :
    ∀ n ∈ g.nodes.values, ∀ v ∈ n.args.values, Fits (maxNesting - 3) v := by
  intro n listed v member
  obtain ⟨document, -, decoded⟩ := Option.bind_eq_some_iff.mp isTable
  obtain ⟨less, isLess, each⟩ := exists_of_table decoded
  obtain ⟨inner, isNode⟩ := each n listed
  have room : maxNesting - 3 = less - 2 := by omega
  rw [room]
  exact Node.fits_of_decode isNode v member

/-- The text of a graph spells the graph, when its arguments fit and their doubles read back. -/
theorem run_text (fits : ∀ n ∈ g.nodes.values, ∀ v ∈ n.args.values, Fits (maxNesting - 3) v)
    (readsBack : ∀ x ∈ g.toJson.doubles, ReadsBack x) : (Decoder.table Node.decode).run g.text = some g.nodes := by
  rw [Decoder.run, Graph.text, Document.read_compact readsBack]
  refine table_document (fun n listed => Node.decode_toJson (fun v member => ?_))
  refine (fits n listed v member).value?_document (fun x inside => readsBack x ?_)
  exact mem_doubles_ofTable Node.toJson listed (Node.mem_doubles_toJson member inside)

theorem read_text (isRead : Graph.read t = .ok g) (readsBack : ∀ x ∈ g.toJson.doubles, ReadsBack x) :
    Graph.read g.text = .ok g := by
  obtain ⟨isTable, intact⟩ := read_eq_ok_iff.mp isRead
  exact read_eq_ok_iff.mpr ⟨run_text (fits_of_run isTable) readsBack, intact⟩

/-- A graph that was read from any text is read again from its own text, with the same order of everything in it, and no
    other graph that can be read has that text. Of the doubles in its arguments it is assumed that they read back. -/
theorem text_determines_graph (isRead : Graph.read t = .ok g) (readsBack : ∀ x ∈ g.toJson.doubles, ReadsBack x) :
    Graph.read g.text = .ok g ∧ ∀ other otherText, Graph.read otherText = .ok other →
      (∀ x ∈ other.toJson.doubles, ReadsBack x) → other.text = g.text → other = g := by
  refine ⟨read_text isRead readsBack, fun other otherText otherRead otherReadsBack same => ?_⟩
  have again := read_text otherRead otherReadsBack
  rw [same, read_text isRead readsBack] at again
  exact (Except.ok.inj again).symm

private def doubleOf? : Value → Option Float
  | .number (.double x) => some x
  | _ => none

private theorem readsBack_of_double? {x : Float} (read : (Value.read (doubleText x)).bind doubleOf? = some x) :
    ReadsBack x := by
  obtain ⟨v, isValue, isDouble⟩ := Option.bind_eq_some_iff.mp read
  unfold doubleOf? at isDouble
  split at isDouble
  next =>
    cases isDouble
    exact isValue
  next => cases isDouble

/-- Two nodes, one of them as an array: an argument is given twice, a field is unknown, a kind is an object. -/
def looseText : String :=
  "\x7b \"osc\" : [\"osc\",\"osc~\",\x7b\"freq\":440,\"detune\":"
    ++ "\x7b\"a\":[1,-0,1e2],\"b\":\"\\u0041\\n\"\x7d,\"freq\":0.5\x7d,\x7b\x7d,"
    ++ "\x7b\"0\":[\"0\",\"signal\"]\x7d,\x7b\x7d,\x7b\"0\":[[\"out\",\"0\"]]\x7d], \"out\" : "
    ++ "\x7b\"type\":\"dac~\",\"color\":[],\"id\":\"out\",\"inlets\":"
    ++ "\x7b\"0\":\x7b\"type\":\x7b\"signal\":null\x7d,\"id\":\"0\"\x7d\x7d,"
    ++ "\"sources\":\x7b\"0\":[\x7b\"portletId\":\"0\",\"nodeId\":\"osc\"\x7d]\x7d\x7d \x7d"

def tidyText : String :=
  "\x7b\"osc\":\x7b\"id\":\"osc\",\"type\":\"osc~\",\"args\":\x7b\"freq\":0.5,"
    ++ "\"detune\":\x7b\"a\":[1,-0.0,100.0],\"b\":\"A\\n\"\x7d\x7d,\"inlets\":\x7b\x7d,"
    ++ "\"outlets\":\x7b\"0\":\x7b\"id\":\"0\",\"type\":\"signal\"\x7d\x7d,\"sources\":\x7b\x7d,"
    ++ "\"sinks\":\x7b\"0\":[\x7b\"nodeId\":\"out\",\"portletId\":\"0\"\x7d]\x7d,"
    ++ "\"isPullingSignal\":false,\"isPushingMessages\":false\x7d,"
    ++ "\"out\":\x7b\"id\":\"out\",\"type\":\"dac~\",\"args\":\x7b\x7d,"
    ++ "\"inlets\":\x7b\"0\":\x7b\"id\":\"0\",\"type\":\"signal\"\x7d\x7d,\"outlets\":\x7b\x7d,"
    ++ "\"sources\":\x7b\"0\":[\x7b\"nodeId\":\"osc\",\"portletId\":\"0\"\x7d]\x7d,"
    ++ "\"sinks\":\x7b\x7d,\"isPullingSignal\":false,\"isPushingMessages\":false\x7d\x7d"

private theorem looseText_read : (Graph.read looseText).toOption.map (fun g => (g.toJson.doubles, g.text)) =
    some ([0.5, -0.0, 100.0], tidyText) := by
  decide +kernel

private theorem looseText_readsBack : ∀ x ∈ [0.5, -0.0, 100.0], ReadsBack x := by
  have read : [0.5, -0.0, 100.0].all (fun x => (Value.read (doubleText x)).bind doubleOf? = some x) = true := by
    decide +kernel
  exact fun x listed => readsBack_of_double? (of_decide_eq_true (List.all_eq_true.mp read x listed))

theorem text_determines_graph_loose : ∃ g, Graph.read looseText = .ok g ∧ g.text = tidyText ∧
    (∀ x ∈ g.toJson.doubles, ReadsBack x) ∧ Graph.read tidyText = .ok g := by
  obtain ⟨g, isRead, values⟩ := Option.map_eq_some_iff.mp looseText_read
  obtain ⟨doubles, written⟩ := Prod.mk.inj values
  have reads : Graph.read looseText = .ok g := toOption_eq_some_iff.mp isRead
  have readsBack : ∀ x ∈ g.toJson.doubles, ReadsBack x := doubles ▸ looseText_readsBack
  exact ⟨g, reads, written, readsBack, written ▸ (text_determines_graph reads readsBack).1⟩

end Graph
end DspPatch
