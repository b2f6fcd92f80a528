import DspPatch.Draft.Build

/-!
Shared code of a draft: the standard definitions, those that the node types depend on, and the core code of each node
type.
-/
namespace DspPatch.Draft

/-- The node types of the draft, each at its first place, with their implementations. -/
def implementations (input : BuildInput) (ids : List String) : Except CompileError (Table Implementation) :=
  ids.foldlM (fun types id => do
    let n ← input.graph.node id
    return types.insertNew n.type (← input.registry.implementation n)) ∅

/-- Give a node type its tag and its local names their symbols. -/
def nameType (type : String) (i : Implementation) : Build Unit := do
  let tag ← Build.name (fun s => .ok (s.attachTypeTag type))
  i.locals.forM (fun name => discard (Build.name (fun s => s.attachGlobal tag name)))

/-- Collect the shared code that the standard definitions and the given ones need. -/
def collectShared (input : BuildInput) (definitions : List Definition) : Build SharedCode := do
  let (shared, symbols) := SharedCode.collect (input.registry.standard ++ definitions) input.settings (← Build.symbols)
  modify (fun w => { w with symbols })
  shared

/-- Make the core code of a node type. -/
def makeCore (input : BuildInput) (type : String) (i : Implementation) : Build Unit := do
  let core ← i.core ⟨type, ← Build.symbols, input.settings⟩
  Build.modifyDraft (fun d => { d with types := d.types.insert type ⟨none, core⟩ })

/-- Name the node types, collect the shared code and make the core code of each type. -/
def collectDependencies (input : BuildInput) : Build Unit :=
  Build.pass .portletsResolved .dependenciesCollected (do
    let types ← implementations input (← Build.nodeIds)
    types.entries.forM (fun (type, i) => nameType type i)
    let shared ← collectShared input (types.values.flatMap Implementation.dependencies)
    Build.modifyDraft (fun d => { d with shared })
    types.entries.forM (fun (type, i) => makeCore input type i))

end DspPatch.Draft
