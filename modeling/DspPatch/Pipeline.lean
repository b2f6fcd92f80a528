import DspPatch.Draft.Certificate
import DspPatch.Graph.Json
import DspPatch.Graph.Trim
import DspPatch.Pass
import DspPatch.Program
import DspPatch.Sha256

/-!
Compilations. The state of a compilation holds its inputs and what the passes have made so far; a run to a terminal pass
runs the passes that lead to it, each of which replaces what it makes. A pass that fails ends the run, and what was made
before it stays.
-/
namespace DspPatch

/-- What a program was made from. -/
structure Provenance where
  graphHash : String
  registryFingerprint : String
  compilerVersion : String
deriving DecidableEq, Repr

/-- The version of the compiler. -/
def version : String := "0.3.0"

def Provenance.of (g : Graph) (r : Registry) : Provenance :=
  ⟨Sha256.digest g.text, Sha256.digest r.text, version⟩

/-- The inputs of a compilation and the artifacts made so far. -/
structure Compilation where
  graph : Graph
  registry : Registry
  request : SettingsRequest
  settings : Option Settings := none
  traversal : Option (List String) := none
  trimmed : Option Graph := none
  symbols : Option Symbols := none
  draft : Option Draft := none
  certificate : Option Certificate := none
  program : Option Sequence := none
  provenance : Option Provenance := none

namespace Compilation

/-- An artifact that a pass needs. -/
def need {α : Type} (name : String) : Option α → Except CompileError α
  | some artifact => .ok artifact
  | none => .error (.unassigned "artifacts" name)

def validateSettings (c : Compilation) : Except CompileError Compilation := do
  let settings ← c.request.validate
  settings.checkPortlets c.graph
  return { c with settings := some settings }

def buildTraversal (c : Compilation) : Except CompileError Compilation := do
  let settings ← need "settings" c.settings
  let order ← c.graph.fullTraversal settings.inletCallers.keys
  return { c with traversal := some order, trimmed := some (c.graph.trim order) }

def allocateNames (c : Compilation) : Except CompileError Compilation := do
  let settings ← need "settings" c.settings
  let trimmed ← need "trimmed graph" c.trimmed
  return { c with symbols := some (← Symbols.ofGraph trimmed settings.debug) }

/-- Work on a fresh draft. Symbols that were given stay, the draft is kept if the work succeeds. -/
def startDraft (c : Compilation) (work : BuildInput → Build Unit) : Except CompileError Unit × Compilation :=
  let prepared := do
    let graph ← need "trimmed graph" c.trimmed
    let draft ← Draft.start graph (← need "traversal" c.traversal)
    let settings ← need "settings" c.settings
    let symbols ← need "names" c.symbols
    return ((⟨graph, c.registry, settings⟩ : BuildInput), (⟨symbols, draft⟩ : Workspace))
  match prepared with
  | .error e => (.error e, c)
  | .ok (input, workspace) =>
    match (work input).run.run workspace with
    | (.error e, w) => (.error e, { c with symbols := some w.symbols })
    | (.ok (), w) => (.ok (), { c with symbols := some w.symbols, draft := some w.draft })

/-- Work on the draft. Symbols that were given and changes of the draft stay. -/
def continueDraft {α : Type} (c : Compilation) (work : BuildInput → Build α) : Except CompileError α × Compilation :=
  let prepared := do
    let graph ← need "trimmed graph" c.trimmed
    let settings ← need "settings" c.settings
    let symbols ← need "names" c.symbols
    let draft ← need "precompiled code" c.draft
    return ((⟨graph, c.registry, settings⟩ : BuildInput), (⟨symbols, draft⟩ : Workspace))
  match prepared with
  | .error e => (.error e, c)
  | .ok (input, workspace) =>
    match (work input).run.run workspace with
    | (result, w) => (result, { c with symbols := some w.symbols, draft := some w.draft })

def assemble (c : Compilation) : Except CompileError Compilation := do
  let draft ← need "precompiled code" c.draft
  let symbols ← need "names" c.symbols
  return { c with program := some (← draft.program symbols) }

/-- A pass that changes nothing when it fails. -/
def atomic (c : Compilation) (next : Except CompileError Compilation) : Except CompileError Unit × Compilation :=
  match next with
  | .error e => (.error e, c)
  | .ok c => (.ok (), c)

/-- Run one pass. -/
def runPass (c : Compilation) : Pass → Except CompileError Unit × Compilation
  | .validateSettings => c.atomic c.validateSettings
  | .buildTraversal => c.atomic c.buildTraversal
  | .allocateNames => c.atomic c.allocateNames
  | .resolvePortlets => c.startDraft Draft.resolvePortlets
  | .collectDependencies => c.continueDraft Draft.collectDependencies
  | .partitionDsp => c.continueDraft Draft.partitionDsp
  | .synthesizeMessages => c.continueDraft Draft.synthesizeMessages
  | .generateNodeCode =>
    match c.continueDraft Draft.finish with
    | (.error e, c) => (.error e, c)
    | (.ok certificate, c) => (.ok (), { c with certificate := some certificate })
  | .assemble => c.atomic c.assemble

/-- How a run ended: the passes that were run, and the error of the last one if it failed. -/
structure Run where
  passes : List Pass
  failure : Option (Pass × CompileError)

/-- Run passes in order up to the first that fails. -/
def runPasses (c : Compilation) : List Pass → Run × Compilation
  | [] => (⟨[], none⟩, c)
  | pass :: rest =>
    match c.runPass pass with
    | (.error e, c) => (⟨[pass], some (pass, e)⟩, c)
    | (.ok (), c) =>
      let (run, c) := c.runPasses rest
      ({ run with passes := pass :: run.passes }, c)

/-- Run the passes that lead to a terminal pass. -/
def run (c : Compilation) (terminal : Pass) : Run × Compilation :=
  runPasses { c with provenance := some (.of c.graph c.registry) } terminal.required

end Compilation

/-- What a backend needs to write a program. -/
structure CompiledProgram where
  program : Sequence
  /-- The functions of the host that the program calls. -/
  imports : List Func
  /-- The symbols that the host may call. -/
  exports : List String
  traversal : List String
  symbols : Symbols
  settings : Settings
  provenance : Provenance

/-- The result of a compilation whose passes have all run. The host listens to outlets and calls inlets. -/
def Compilation.result (c : Compilation) : Except CompileError CompiledProgram := do
  let draft ← need "precompiled code" c.draft
  let symbols ← need "names" c.symbols
  let listeners := symbols.outletListeners.values.flatMap (fun ns => ns.entries.values)
  let program ← need "program" c.program
  let traversal ← need "traversal" c.traversal
  let settings ← need "settings" c.settings
  let provenance ← need "provenance" c.provenance
  return {
    program, traversal, symbols, settings, provenance
    imports := draft.shared.imports ++ listeners.map (fun symbol => Draft.messageFunction symbol .empty)
    exports := draft.shared.exports ++ draft.inletCallers.map InletCaller.symbol }

/-- Compile a graph; a failure names the pass. -/
def compile (g : Graph) (r : Registry) (request : SettingsRequest) : Except (Pass × CompileError) CompiledProgram :=
  match (Compilation.run { graph := g, registry := r, request } .assemble) with
  | (⟨_, some failure⟩, _) => .error failure
  | (⟨_, none⟩, c) => c.result.mapError (fun e => (.assemble, e))

end DspPatch
