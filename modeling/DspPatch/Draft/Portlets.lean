import DspPatch.Draft.Build

/-!
Portlets of a draft. First every signal outlet gets a variable and every message inlet that can receive a message gets a
receiver, and the host's listeners and callers get their symbols. Then every signal inlet gets the expression that feeds
it, and every message outlet the list of those who listen to it.
-/
namespace DspPatch.Draft

/-- A message inlet needs a receiver if it has a source or if the host calls it. -/
def receives (called : List String) (n : Node) (inlet : String) : Bool :=
  called.contains inlet || !(n.sourcesOf inlet).isEmpty

/-- Give the portlets of a node their symbols. -/
def namePortlets (input : BuildInput) (id : String) : Build Unit := do
  let n ← input.graph.node id
  let called := (input.settings.inletCallers.get? id).getD []
  (n.outletsOf .signal).forM (fun outlet => do
    let symbol ← Build.name (fun s => s.attachPortlet .outs id outlet.id)
    Build.modifyNode id (fun d => { d with signalOuts := d.signalOuts.insert outlet.id symbol }))
  ((n.inletsOf .message).filter (fun inlet => receives called n inlet.id)).forM (fun inlet =>
    discard (Build.name (fun s => s.attachPortlet .rcvs id inlet.id)))
  ((input.settings.outletListeners.get? id).getD []).forM (fun outlet =>
    discard (Build.name (fun s => s.attachListener id outlet)))
  called.forM (fun inlet => discard (Build.name (fun s => s.attachCaller id inlet)))

/-- The sum of terms. -/
def sumExpression : List String → String
  | [] => Engine.nullSignal
  | [term] => term
  | terms => "(" ++ " + ".intercalate terms ++ ")"

/-- The variable of a signal outlet that feeds a signal inlet. -/
def sourceTerm (g : Graph) (symbols : Symbols) (n : Node) (inlet : String) (source : Endpoint) :
    Except CompileError String := do
  let outlet ← (← g.node source.node).outlet source.portlet
  if outlet.kind = .signal then symbols.portlet .outs source.node source.portlet
  else throw (.graph (.atPortlet n.id inlet) (.messageSource source.node source.portlet))

/-- The expression that feeds a signal inlet: the sum of its sources. -/
def inletExpression (g : Graph) (symbols : Symbols) (n : Node) (inlet : String) : Except CompileError String := do
  return sumExpression (← (n.sourcesOf inlet).mapM (sourceTerm g symbols n inlet))

/-- The receiver of a message inlet that a message outlet feeds. -/
def sinkReceiver (g : Graph) (symbols : Symbols) (n : Node) (outlet : String) (sink : Endpoint) :
    Except CompileError String := do
  let inlet ← (← g.node sink.node).inlet sink.portlet
  if inlet.kind = .message then symbols.portlet .rcvs sink.node sink.portlet
  else throw (.graph (.atPortlet n.id outlet) (.signalSink sink.node sink.portlet))

/-- Those who listen to a message outlet: the host first, then the sinks in the order of their connections. -/
def senderPlan (g : Graph) (symbols : Symbols) (n : Node) (outlet : String) : Except CompileError (List String) := do
  return (symbols.listener? n.id outlet).toList ++ (← (n.sinksOf outlet).mapM (sinkReceiver g symbols n outlet))

/-- Connect the portlets of a node to those of others. -/
def wirePortlets (input : BuildInput) (id : String) : Build Unit := do
  let n ← input.graph.node id
  (n.inletsOf .signal).forM (fun inlet => do
    let expression ← inletExpression input.graph (← Build.symbols) n inlet.id
    Build.modifyNode id (fun d => { d with signalIns := d.signalIns.insert inlet.id expression }))
  (n.outletsOf .message).forM (fun outlet => do
    let plan ← senderPlan input.graph (← Build.symbols) n outlet.id
    Build.modifyNode id (fun d => { d with senderPlans := d.senderPlans.insert outlet.id plan }))

/-- Name all portlets, then connect them. -/
def resolvePortlets (input : BuildInput) : Build Unit :=
  Build.pass .untouched .portletsResolved (do
    (← Build.nodeIds).forM (namePortlets input)
    (← Build.nodeIds).forM (wirePortlets input))

end DspPatch.Draft
