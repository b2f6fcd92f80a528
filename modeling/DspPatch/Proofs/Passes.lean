import DspPatch.Proofs.Pipeline

/-!
A compilation that succeeds. Its passes after the traversal work on the trimmed graph only, so they are described by what
each of them leaves (`Passes`), and the program is read off the last of them (`compile_eq_ok_iff`).
-/
namespace DspPatch

/-- The passes after the traversal, all of which succeed. -/
structure Passes (input : BuildInput) (full : List String) where
  allocated : Symbols
  started : Draft
  resolved : Workspace
  collected : Workspace
  divided : Workspace
  spoken : Workspace
  finished : Workspace
  certificate : Certificate
  program : Sequence
  allocates : Symbols.ofGraph input.graph input.settings.debug = .ok allocated
  starts : Draft.start input.graph full = .ok started
  resolves : (Draft.resolvePortlets input).run.run ⟨allocated, started⟩ = (.ok (), resolved)
  collects : (Draft.collectDependencies input).run.run resolved = (.ok (), collected)
  divides : (Draft.partitionDsp input).run.run collected = (.ok (), divided)
  speaks : (Draft.synthesizeMessages input).run.run divided = (.ok (), spoken)
  finishes : (Draft.finish input).run.run spoken = (.ok certificate, finished)
  assembles : finished.draft.program finished.symbols = .ok program

/-- The program that the passes lead to. -/
def Passes.result {input : BuildInput} {full : List String} (passes : Passes input full) (provenance : Provenance) :
    CompiledProgram where
  program := passes.program
  imports := passes.finished.draft.shared.imports ++
    (passes.finished.symbols.outletListeners.values.flatMap (fun ns => ns.entries.values)).map
      (fun symbol => Draft.messageFunction symbol .empty)
  exports := passes.finished.draft.shared.exports ++ passes.finished.draft.inletCallers.map InletCaller.symbol
  traversal := full
  symbols := passes.finished.symbols
  settings := input.settings
  provenance := provenance

open Build Compilation

theorem exists_passes {g : Graph} {r : Registry} {request : SettingsRequest} {result : CompiledProgram}
    (compiled : compile g r request = .ok result) :
    ∃ s full, checkedSettings g request = .ok s ∧ g.fullTraversal s.inletCallers.keys = .ok full ∧
      ∃ passes : Passes ⟨g.trim full, r, s⟩ full, passes.result (.of g r) = result ∧
        (Compilation.run { graph := g, registry := r, request } .assemble).2.draft = some passes.finished.draft := by
  have outcome : Yields (compile g r request) (fun result => ∃ s full, checkedSettings g request = .ok s ∧
      g.fullTraversal s.inletCallers.keys = .ok full ∧
      ∃ passes : Passes ⟨g.trim full, r, s⟩ full, passes.result (.of g r) = result ∧
        (Compilation.run { graph := g, registry := r, request } .assemble).2.draft = some passes.finished.draft)
      (fun _ => True) := by
    refine compile_yields (fun _ _ => True) (runs_all ?_)
    refine (Yields.self _).mono (fun s checked => ?_) (fun _ _ => trivial)
    refine (Yields.self _).mono (fun full traversal => ?_) (fun _ _ => trivial)
    refine (Yields.self _).mono (fun symbols allocates => ?_) (fun _ _ => trivial)
    refine (Yields.self _).mono (fun draft starts => ?_) (fun _ _ => trivial)
    refine (Ends.self _ _).mono (fun _ resolved resolves => ?_) (fun _ _ => trivial)
    refine (Ends.self _ _).mono (fun _ collected collects => ?_) (fun _ _ => trivial)
    refine (Ends.self _ _).mono (fun _ divided divides => ?_) (fun _ _ => trivial)
    refine (Ends.self _ _).mono (fun _ spoken speaks => ?_) (fun _ _ => trivial)
    refine (Ends.self _ _).mono (fun certificate finished finishes => ?_) (fun _ _ => trivial)
    refine (Yields.self _).mono (fun program assembles run => ?_) (fun _ _ => trivial)
    exact ⟨_, rfl, s, full, checked, traversal, ⟨symbols, draft, resolved, collected, divided, spoken, finished,
      certificate, program, allocates, starts, resolves, collects, divides, speaks, finishes, assembles⟩, rfl,
      by rw [run]; rfl⟩
  exact outcome.of_eq_ok compiled

theorem compile_eq_ok_iff {g : Graph} {r : Registry} {request : SettingsRequest} {result : CompiledProgram} :
    compile g r request = .ok result ↔ ∃ s full, checkedSettings g request = .ok s ∧
      g.fullTraversal s.inletCallers.keys = .ok full ∧
      ∃ passes : Passes ⟨g.trim full, r, s⟩ full, passes.result (.of g r) = result := by
  constructor
  · intro compiled
    obtain ⟨s, full, checked, traversal, passes, same, _⟩ := exists_passes compiled
    exact ⟨s, full, checked, traversal, passes, same⟩
  · rintro ⟨s, full, checked, traversal, passes, rfl⟩
    have outcome : Yields (compile g r request) (fun result => result = passes.result (.of g r)) (fun _ => False) := by
      refine compile_yields (fun _ _ => False) (runs_all ?_)
      apply Yields.of_ok checked
      apply Yields.of_ok traversal
      apply Yields.of_ok passes.allocates
      apply Yields.of_ok passes.starts
      apply Ends.of_run_eq passes.resolves
      apply Ends.of_run_eq passes.collects
      apply Ends.of_run_eq passes.divides
      apply Ends.of_run_eq passes.speaks
      apply Ends.of_run_eq passes.finishes
      apply Yields.of_ok passes.assembles
      exact fun _ => ⟨_, rfl, rfl⟩
    obtain ⟨result, compiled, same⟩ := outcome.exists_ok
    rw [compiled, same]

end DspPatch
