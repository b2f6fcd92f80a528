import DspPatch.Draft.Basic

/-!
Work on a draft. A pass reads the graph, the registry and the settings, gives symbols and changes the draft. When it
fails, the symbols given and the changes made so far stay.
-/
namespace DspPatch

/-- What every pass reads. -/
structure BuildInput where
  graph : Graph
  registry : Registry
  settings : Settings

/-- What passes change. -/
structure Workspace where
  symbols : Symbols
  draft : Draft

/-- A step of work, which may fail; the workspace is kept in both cases. -/
abbrev Build := ExceptT CompileError (StateM Workspace)

namespace Build

def symbols : Build Symbols := do return (← get).symbols

def draft : Build Draft := do return (← get).draft

/-- Give a symbol. -/
def name (give : Symbols → Except CompileError (String × Symbols)) : Build String := do
  let (symbol, symbols) ← give (← symbols)
  modify (fun w => { w with symbols })
  return symbol

def modifyDraft (f : Draft → Draft) : Build Unit := modify (fun w => { w with draft := f w.draft })

def modifyNode (id : String) (f : NodeDraft → NodeDraft) : Build Unit := modifyDraft (fun d => d.modifyNode id f)

/-- The ids of the nodes of the draft, in order. -/
def nodeIds : Build (List String) := do return (← draft).nodes.keys

/-- A pass: all nodes have to be at one stage, and when the work is done they are at the next. -/
def pass (expected next : Stage) (work : Build Unit) : Build Unit := do
  (← draft).expectStage expected
  work
  modifyDraft (fun d => d.atStage next)

end Build

/-- What the code of a node sees. -/
def BuildInput.context (input : BuildInput) (symbols : Symbols) (d : Draft) (id : String) :
    Except CompileError NodeContext := do
  let node ← input.graph.node id
  return ⟨node, symbols, input.settings, (← d.node id).signalIns⟩

end DspPatch
