import DspPatch.Draft.Build

/-!
The remaining code of the nodes of a draft: state, initialization, loops that are not made yet, and inlet code. All nodes
of a type have to declare the same state members.
-/
namespace DspPatch.Draft

/-- What the generators of a node yield. -/
structure GeneratedCode where
  members : List StateMember
  initialization : Option Sequence
  /-- None if the loop code was made before. -/
  loop : Option (Option Sequence)
  inletDsp : Table Sequence

/-- Run the generators of a node; an inlined node has neither loop code nor inlet code. -/
def generate (i : Implementation) (context : NodeContext) (n : NodeDraft) : Except CompileError GeneratedCode := do
  let members ← i.state context
  let initialization ← i.declarations context
  if n.inlined then return ⟨members, initialization, none, ∅⟩
  else
    let loop ← if n.loopResolved then pure none else (i.loop context).map some
    return ⟨members, initialization, loop, ← i.inletDsp context⟩

/-- The class of a node type after one of its nodes has declared its members. -/
def declareState (d : Draft) (id type className : String) (members : List StateMember) : Except CompileError Draft :=
  let typeDraft := (d.types.get? type).getD {}
  let declared := members.map (fun m => Var.plain m.type m.name)
  match typeDraft.stateClass with
  | none => .ok { d with types := d.types.insert type { typeDraft with stateClass := some ⟨className, declared⟩ } }
  | some known =>
    if known.members.map (fun v => (v.type, v.name)) = declared.map (fun v => (v.type, v.name)) then .ok d
    else .error (.verification (.stateLayout id type))

/-- The state of a node whose type is `type`. -/
def makeState (id type : String) (members : List StateMember) : Build (Option NodeState) := do
  if members.isEmpty then return none
  let tag ← (← Build.symbols).typeTag type
  let className ← Build.name (fun s => s.attachGlobal tag "State")
  let draft ← declareState (← Build.draft) id type className members
  Build.modifyDraft (fun _ => draft)
  return some ⟨(← (← Build.symbols).node id).state, className, members⟩

/-- Make the remaining code of a node. -/
def finalizeNode (input : BuildInput) (id : String) : Build Unit := do
  let node ← input.graph.node id
  let i ← input.registry.implementation node
  let d ← Build.draft
  let context ← input.context (← Build.symbols) d id
  let code ← generate i context (← d.node id)
  let state ← makeState id node.type code.members
  Build.modifyNode id (fun n => { n with
    state
    initialization := code.initialization
    loop := code.loop.getD n.loop
    loopResolved := code.loop.isSome || n.loopResolved
    inletDsp := if n.inlined then n.inletDsp else code.inletDsp })

/-- Make the remaining code of all nodes. -/
def finalizeNodeCode (input : BuildInput) : Build Unit :=
  Build.pass .messagesSynthesized .finalized (do (← Build.nodeIds).forM (finalizeNode input))

end DspPatch.Draft
