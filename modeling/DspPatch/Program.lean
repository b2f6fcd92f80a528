import DspPatch.Draft.Basic

/-!
The program of a finished draft: the engine's variables, the shared code, the code of each node type, the declarations of
the nodes, the functions that the host calls, the frame loop over the hot nodes, and the cold groups, each as a function
that is called once at the start.
-/
namespace DspPatch.Draft

/-- The engine's own declarations. -/
def engineGlobals (symbols : Symbols) : Except CompileError (List Element) := do
  let create ← symbols.global "msg" "create"
  return [
    .variable (.plain "Int" Engine.iterFrame),
    .variable (.withCode "Int" Engine.frame "0"),
    .variable (.withCode "Int" Engine.blockSize "0"),
    .variable (.withCode "Float" Engine.sampleRate "0"),
    .variable (.withCode "FloatArray[]" Engine.input "[]"),
    .variable (.withCode "FloatArray[]" Engine.output "[]"),
    .constant (.withCode "Float" Engine.nullSignal "0"),
    .function (messageFunction Engine.nullReceiver .empty),
    .constant (.withCode "Message" Engine.emptyMessage (create ++ "([])"))]

/-- The class and the core code of a node type. -/
def typeElements (t : TypeDraft) : List Element :=
  (t.stateClass.map .record).toList ++ (t.core.getD .empty).content

/-- The variables of the signal outlets of a node. -/
def outletElements (n : NodeDraft) : List Element :=
  n.signalOuts.values.map (fun symbol => .variable (.withCode "Float" symbol "0"))

def receiverElements (n : NodeDraft) : List Element := n.receivers.values.map .function

/-- Calls of functions with the message at hand, one a line. -/
def callLines (functions : List String) : Sequence := .ofCode ("\n".intercalate (functions.map (· ++ "(m)")))

/-- The functions of those senders that have several callees. -/
def senderElements (n : NodeDraft) : List Element :=
  (n.senders.values.filter Sender.needsFunction).map (fun s => .function (messageFunction s.symbol (callLines s.callees)))

/-- The state of a node, with the first value of each member. -/
def stateElements (n : NodeDraft) : List Element :=
  (n.state.map (fun s =>
    let members := s.members.map (fun m => s!"{m.name}: {m.value},")
    .constant (.withCode s.className s.symbol ("\x7b\n" ++ "\n".intercalate members ++ "\n\x7d")))).toList

def initializationElements (n : NodeDraft) : List Element := (n.initialization.getD .empty).content

def callerElement (c : InletCaller) : Element :=
  .function (messageFunction c.symbol (callLines (c.receiver :: c.coldTrigger.toList)))

/-- The inlets that cold groups feed. -/
def coldFed (d : Draft) : List Endpoint := d.partition.cold.flatMap (fun g => g.sinkConnections.map Connection.sink)

/-- What a hot node does in a frame: the code of the inlets that no cold group feeds, then its loop code. -/
def hotElements (d : Draft) (id : String) : Except CompileError (List Element) := do
  let n ← d.node id
  let inlets := n.inletDsp.entries.filter (fun entry => ⟨id, entry.1⟩ ∉ d.coldFed)
  return inlets.flatMap (fun entry => entry.2.content) ++ (n.loop.getD .empty).content

/-- The body of the frame loop. -/
def hotBody (d : Draft) : Except CompileError Sequence := do
  return .ofElements (← d.partition.hot.traversal.mapM d.hotElements).flatten

/-- The code of an inlet, if it has some. -/
def inletElements (d : Draft) (inlet : Endpoint) : Except CompileError (List Element) := do
  return (((← d.node inlet.node).inletDsp.get? inlet.portlet).getD .empty).content

/-- The function of a cold group: the loop code of its members, then the code of the inlets that it feeds. -/
def coldFunction (d : Draft) (g : ColdGroup) : Except CompileError Func := do
  let loops ← g.group.traversal.mapM (fun id => do return ((← d.node id).loop.getD .empty).content)
  let inlets ← (g.sinkConnections.map Connection.sink).eraseDups.mapM d.inletElements
  return messageFunction g.function (.ofElements (loops.flatten ++ inlets.flatten))

/-- The loop over the frames of a block. -/
def frameLoop (d : Draft) (symbols : Symbols) : Except CompileError FrameLoop := do
  let frameHook ← symbols.global "commons" "emitFrame"
  return ⟨Engine.iterFrame, Engine.blockSize, Engine.frame, frameHook, ← d.hotBody⟩

/-- The program; all nodes have to be finalized. -/
def program (d : Draft) (symbols : Symbols) : Except CompileError Sequence := do
  d.expectStage .finalized
  let globals ← engineGlobals symbols
  let loop ← d.frameLoop symbols
  let cold ← d.partition.cold.mapM d.coldFunction
  let nodes := d.nodes.values
  return .ofElements (globals ++ d.shared.code.content ++ d.types.values.flatMap typeElements ++
    nodes.flatMap outletElements ++ nodes.flatMap receiverElements ++ nodes.flatMap senderElements ++
    nodes.flatMap stateElements ++ nodes.flatMap initializationElements ++ d.inletCallers.map callerElement ++
    [.frameLoop loop] ++ cold.map .function ++
    d.partition.cold.map (fun g => .code s!"{g.function}({Engine.emptyMessage})"))

end DspPatch.Draft
