import DspPatch.Draft.Build

/-!
Messages of a draft. Every message outlet gets a sender: nobody, the only callee itself, or a function that calls all.
A message to a member of a cold group also runs that group. Every receiver gets a function, and so does every inlet that
the host calls.
-/
namespace DspPatch.Draft

/-- An element put at the end unless it is there. -/
def appendNew (list : List String) (item : String) : List String := if list.contains item then list else list ++ [item]

/-- The callees of an outlet: those of its plan, then the functions of the cold groups that its sinks belong to. -/
def callees (p : Partition) (plan : List String) (sinks : List Endpoint) : List String :=
  (sinks.filterMap (fun sink => p.trigger? sink.node)).foldl appendNew plan

/-- Give an outlet the symbol to send with. -/
def nameSender (id outlet : String) (callees : List String) : Build Sender := do
  match callees with
  | [] => return ⟨← Build.name (fun s => s.aliasPortlet .snds id outlet Engine.nullReceiver), [], false⟩
  | [callee] => return ⟨← Build.name (fun s => s.aliasPortlet .snds id outlet callee), [callee], false⟩
  | _ => return ⟨← Build.name (fun s => s.attachPortlet .snds id outlet), callees, true⟩

/-- Make the senders of a node. -/
def makeSenders (input : BuildInput) (id : String) : Build Unit := do
  let n ← input.graph.node id
  (n.outletsOf .message).forM (fun outlet => do
    let d ← Build.draft
    let plan := ((← d.node id).senderPlans.get? outlet.id).getD []
    let sender ← nameSender id outlet.id (callees d.partition plan (n.sinksOf outlet.id))
    Build.modifyNode id (fun d => { d with senders := d.senders.insert outlet.id sender }))

/-- The statement that reports a message that a receiver did not handle. -/
def unhandledMessage (symbols : Symbols) (debug : Bool) (type id inlet : String) : Except CompileError String := do
  let location := s!"[{type}], id \"{id}\", inlet \"{inlet}\", unsupported message"
  if debug then
    let display ← symbols.global "msg" "display"
    return s!"throw new Error('{location} : ' + {display}(m) + " ++
      "'\\nDEBUG : remember, you must return from message receiver')"
  else return s!"throw new Error('{location}')"

/-- The function of one receiver. -/
def receiverFunction (input : BuildInput) (symbols : Symbols) (n : Node) (id inlet : String)
    (bodies : Table Receiver) : Except CompileError Func := do
  match bodies.get? inlet with
  | none => throw (.implementation n.type (.atPortlet id inlet) .missingReceiver)
  | some receiver =>
    let body ← if receiver.exhaustive then pure receiver.body
      else do pure (receiver.body.pushCode (← unhandledMessage symbols input.settings.debug n.type id inlet))
    return messageFunction (← symbols.portlet .rcvs id inlet) body

/-- The functions of all receivers of a node that has some. -/
def receiverFunctions (input : BuildInput) (symbols : Symbols) (d : Draft) (id : String) (inlets : List String) :
    Except CompileError (Table Func) := do
  let n ← input.graph.node id
  let i ← input.registry.implementation n
  let bodies ← i.receivers (← input.context symbols d id)
  return .ofList (← inlets.mapM (fun inlet => do return (inlet, ← receiverFunction input symbols n id inlet bodies)))

/-- Make the receivers of a node, one for every receiver symbol. -/
def makeReceivers (input : BuildInput) (id : String) : Build Unit := do
  let symbols ← Build.symbols
  let inlets := (← symbols.node id).rcvs.entries.keys
  if !inlets.isEmpty then
    let receivers ← receiverFunctions input symbols (← Build.draft) id inlets
    Build.modifyNode id (fun d => { d with receivers })

/-- The function through which the host calls an inlet. -/
def inletCaller (symbols : Symbols) (p : Partition) (id inlet : String) : Except CompileError InletCaller := do
  match symbols.caller? id inlet with
  | none => throw (.unassigned s!"inletCallers_{id}" inlet)
  | some symbol => return ⟨id, inlet, symbol, ← symbols.portlet .rcvs id inlet, p.trigger? id⟩

/-- The inlets of nodes of the draft that the host calls. -/
def inletCallersOf (input : BuildInput) (symbols : Symbols) (d : Draft) : Except CompileError (List InletCaller) :=
  let called := input.settings.inletCallers.entries.filter (fun entry => d.nodes.contains entry.1)
  (called.flatMap (fun (id, inlets) => inlets.map (fun inlet => (id, inlet)))).mapM
    (fun (id, inlet) => inletCaller symbols d.partition id inlet)

/-- Make all senders, then all receivers, then the functions that the host calls. -/
def synthesizeMessages (input : BuildInput) : Build Unit :=
  Build.pass .dspPartitioned .messagesSynthesized (do
    (← Build.nodeIds).forM (makeSenders input)
    (← Build.nodeIds).forM (makeReceivers input)
    let inletCallers ← inletCallersOf input (← Build.symbols) (← Build.draft)
    Build.modifyDraft (fun d => { d with inletCallers }))

end DspPatch.Draft
