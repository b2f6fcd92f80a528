import DspPatch.Draft.Cold
import DspPatch.Draft.Fusion
import DspPatch.Graph.Traversal

/-!
The partition of a draft into the hot group and the cold groups, followed by fusion.
-/
namespace DspPatch.Draft

/-- The nodes of a traversal that pull a signal. -/
def pulling (g : Graph) (traversal : List String) : List String :=
  traversal.filter (fun id => (g.get? id).any Node.isPullingSignal)

/-- Give the cold groups their numbers and the names of their functions. -/
def nameColdGroups (groups : List (Group × List Connection)) : Build (List ColdGroup) :=
  groups.zipIdx.mapM (fun ((group, connections), i) => do
    let function ← Build.name (fun s => .ok (s.attachColdGroup i))
    return ⟨i, group, connections, function⟩)

/-- Split the nodes that signals reach. -/
def splitGroups (input : BuildInput) (full signal : List String) : Build Partition := do
  let order := full.filter (fun id => signal.contains id)
  let eligible ← Cold.eligible input.graph input.registry order signal
  let components := Cold.components input.graph eligible order
  let cold ← nameColdGroups (components.map (Cold.group input.graph order))
  let hot := order.filter (fun id => !(components.any (fun members => members.contains id)))
  let pulling := pulling input.graph full
  return ⟨full, ⟨hot, hot.filter (fun id => pulling.contains id)⟩, cold⟩

/-- Split the nodes that carry signals, then fuse inline nodes in the order in which they run. -/
def partitionDsp (input : BuildInput) : Build Unit :=
  Build.pass .dependenciesCollected .dspPartitioned (do
    let full := (← Build.draft).partition.full
    let signal ← input.graph.signalTraversal (fun _ => true) (pulling input.graph full)
    let partition ← splitGroups input full signal
    Build.modifyDraft (fun d => { d with partition })
    (full.filter (fun id => signal.contains id)).forM (fun id => do
      let draft ← fuseNode input (← Build.symbols) partition (← Build.draft) id
      Build.modifyDraft (fun _ => draft))
    Build.modifyDraft dropInlined)

end DspPatch.Draft
