import DspPatch.Pipeline
import DspPatch.Proofs.Build
import DspPatch.Proofs.Settings

/-!
A compilation as one chain of computations. `Runs` says of a list of passes what holds of the compilation they leave and
of the pass that fails; there is one rule for each kind of pass. Together they turn a compilation into the sequence of
what its passes compute, each from what the ones before have made (`runs_all`).
-/
namespace DspPatch

theorem Pass.required_assemble : Pass.required .assemble = Pass.all := by
  decide +kernel

namespace Compilation
open Build
variable {c : Compilation} {pass : Pass} {rest : List Pass} {post : Compilation → Prop}
  {fault : Pass → CompileError → Prop}

/-- The passes leave a compilation that satisfies `post`, or one of them fails as `fault` says. -/
def Runs (c : Compilation) (passes : List Pass) (post : Compilation → Prop) (fault : Pass → CompileError → Prop) : Prop :=
  match c.runPasses passes with
  | (⟨_, none⟩, last) => post last
  | (⟨_, some (pass, e)⟩, _) => fault pass e

namespace Runs

theorem nil (holds : post c) : Runs c [] post fault := holds

theorem cons_ok {next : Compilation} (ran : c.runPass pass = (.ok (), next)) (later : Runs next rest post fault) :
    Runs c (pass :: rest) post fault := by
  unfold Runs at later ⊢
  rcases result : next.runPasses rest with ⟨⟨passes, failure⟩, last⟩
  rw [result] at later
  simp only [runPasses, ran, result]
  cases failure <;> exact later

theorem cons_error {next : Compilation} {e : CompileError} (ran : c.runPass pass = (.error e, next)) (bad : fault pass e) :
    Runs c (pass :: rest) post fault := by
  unfold Runs
  rw [runPasses, ran]
  exact bad

theorem atomic {next : Except CompileError Compilation} (ran : c.runPass pass = c.atomic next)
    (outcome : Yields next (fun c => Runs c rest post fault) (fault pass)) : Runs c (pass :: rest) post fault := by
  cases next with
  | ok next => exact cons_ok ran outcome
  | error e => exact cons_error ran outcome

end Runs

section Drafts
variable {g : Graph} {s : Settings} {symbols : Symbols} {draft : Draft}

theorem continueDraft_eq {α : Type} (work : BuildInput → Build α) (trimmed : c.trimmed = some g)
    (settings : c.settings = some s) (names : c.symbols = some symbols) (code : c.draft = some draft) :
    c.continueDraft work =
      (((work ⟨g, c.registry, s⟩).run.run ⟨symbols, draft⟩).1,
       { c with symbols := some ((work ⟨g, c.registry, s⟩).run.run ⟨symbols, draft⟩).2.symbols,
                draft := some ((work ⟨g, c.registry, s⟩).run.run ⟨symbols, draft⟩).2.draft }) := by
  cases c
  cases trimmed; cases settings; cases names; cases code
  rfl

namespace Runs

theorem startDraft {work : BuildInput → Build Unit} {full : List String} (ran : c.runPass pass = c.startDraft work)
    (trimmed : c.trimmed = some g) (traversal : c.traversal = some full) (settings : c.settings = some s)
    (names : c.symbols = some symbols)
    (outcome : Yields (Draft.start g full) (fun d => Ends (work ⟨g, c.registry, s⟩) ⟨symbols, d⟩
      (fun _ w => Runs { c with symbols := some w.symbols, draft := some w.draft } rest post fault) (fault pass))
      (fault pass)) :
    Runs c (pass :: rest) post fault := by
  obtain ⟨_, registry, _, _, _, _, _, _, _, _, _⟩ := c
  cases trimmed; cases traversal; cases settings; cases names
  dsimp only [Compilation.startDraft, need, bind, Except.bind] at ran
  cases start : Draft.start g full with
  | error e =>
    rw [start] at ran outcome
    exact cons_error ran outcome
  | ok d =>
    rw [start] at ran outcome
    rcases result : (work ⟨g, registry, s⟩).run.run ⟨symbols, d⟩ with ⟨e | done, w⟩
    · simp only [pure, Except.pure, result] at ran
      exact cons_error ran (Ends.of_run_error outcome result)
    · simp only [pure, Except.pure, result] at ran
      exact cons_ok ran (Ends.of_run outcome result)

theorem continueDraft {work : BuildInput → Build Unit} (ran : c.runPass pass = c.continueDraft work)
    (trimmed : c.trimmed = some g) (settings : c.settings = some s) (names : c.symbols = some symbols)
    (code : c.draft = some draft)
    (outcome : Ends (work ⟨g, c.registry, s⟩) ⟨symbols, draft⟩
      (fun _ w => Runs { c with symbols := some w.symbols, draft := some w.draft } rest post fault) (fault pass)) :
    Runs c (pass :: rest) post fault := by
  rw [continueDraft_eq work trimmed settings names code] at ran
  rcases result : (work ⟨g, c.registry, s⟩).run.run ⟨symbols, draft⟩ with ⟨e | done, w⟩
  · rw [result] at ran
    exact cons_error ran (outcome.of_run_error result)
  · rw [result] at ran
    exact cons_ok ran (outcome.of_run result)

theorem finish (trimmed : c.trimmed = some g) (settings : c.settings = some s) (names : c.symbols = some symbols)
    (code : c.draft = some draft)
    (outcome : Ends (Draft.finish ⟨g, c.registry, s⟩) ⟨symbols, draft⟩ (fun certificate w =>
      Runs { c with symbols := some w.symbols, draft := some w.draft, certificate := some certificate } rest post fault)
      (fault .generateNodeCode)) :
    Runs c (.generateNodeCode :: rest) post fault := by
  have worked := continueDraft_eq Draft.finish trimmed settings names code
  rcases result : (Draft.finish ⟨g, c.registry, s⟩).run.run ⟨symbols, draft⟩ with ⟨e | certificate, w⟩
  · rw [result] at worked
    exact cons_error (by rw [runPass, worked]) (outcome.of_run_error result)
  · rw [result] at worked
    exact cons_ok (by rw [runPass, worked]) (outcome.of_run result)

end Runs
end Drafts

/-- A compilation whose passes have all run. -/
def completed (g : Graph) (r : Registry) (request : SettingsRequest) (s : Settings) (full : List String) (w : Workspace)
    (certificate : Certificate) (program : Sequence) : Compilation where
  graph := g
  registry := r
  request := request
  settings := some s
  traversal := some full
  trimmed := some (g.trim full)
  symbols := some w.symbols
  draft := some w.draft
  certificate := some certificate
  program := some program
  provenance := some (.of g r)

variable {g : Graph} {r : Registry} {request : SettingsRequest}

theorem runs_all (outcome : Yields (checkedSettings g request) (fun s =>
    Yields (g.fullTraversal s.inletCallers.keys) (fun full =>
    Yields (Symbols.ofGraph (g.trim full) s.debug) (fun symbols =>
    Yields (Draft.start (g.trim full) full) (fun draft =>
    Ends (Draft.resolvePortlets ⟨g.trim full, r, s⟩) ⟨symbols, draft⟩ (fun _ resolved =>
    Ends (Draft.collectDependencies ⟨g.trim full, r, s⟩) resolved (fun _ collected =>
    Ends (Draft.partitionDsp ⟨g.trim full, r, s⟩) collected (fun _ divided =>
    Ends (Draft.synthesizeMessages ⟨g.trim full, r, s⟩) divided (fun _ spoken =>
    Ends (Draft.finish ⟨g.trim full, r, s⟩) spoken (fun certificate finished =>
    Yields (finished.draft.program finished.symbols)
      (fun program => post (completed g r request s full finished certificate program))
      (fault .assemble)) (fault .generateNodeCode)) (fault .synthesizeMessages)) (fault .partitionDsp))
      (fault .collectDependencies)) (fault .resolvePortlets)) (fault .resolvePortlets)) (fault .allocateNames))
      (fault .buildTraversal)) (fault .validateSettings)) :
    Runs { graph := g, registry := r, request, provenance := some (.of g r) } Pass.all post fault := by
  have validated : validateSettings { graph := g, registry := r, request, provenance := some (.of g r) } =
      (checkedSettings g request).map (fun s =>
        { graph := g, registry := r, request, settings := some s, provenance := some (.of g r) }) := by
    unfold validateSettings checkedSettings
    cases request.validate with
    | error e => rfl
    | ok s =>
      simp only [bind, Except.bind]
      cases s.checkPortlets g <;> rfl
  refine .atomic rfl (validated ▸ outcome.map (fun s outcome => ?_))
  refine .atomic rfl ?_
  show Yields (g.fullTraversal s.inletCallers.keys >>= _) _ _
  refine outcome.bind (fun full outcome => ?_)
  refine .atomic rfl ?_
  show Yields (Symbols.ofGraph (g.trim full) s.debug >>= _) _ _
  refine outcome.bind (fun symbols outcome => ?_)
  refine .startDraft rfl rfl rfl rfl rfl (outcome.mono (fun draft outcome => ?_) (fun _ bad => bad))
  refine outcome.mono (fun _ resolved outcome => ?_) (fun _ bad => bad)
  refine .continueDraft rfl rfl rfl rfl rfl (outcome.mono (fun _ collected outcome => ?_) (fun _ bad => bad))
  refine .continueDraft rfl rfl rfl rfl rfl (outcome.mono (fun _ divided outcome => ?_) (fun _ bad => bad))
  refine .continueDraft rfl rfl rfl rfl rfl (outcome.mono (fun _ spoken outcome => ?_) (fun _ bad => bad))
  refine .finish rfl rfl rfl rfl (outcome.mono (fun certificate finished outcome => ?_) (fun _ bad => bad))
  refine .atomic rfl ?_
  show Yields (finished.draft.program finished.symbols >>= _) _ _
  refine outcome.bind (fun program holds => ?_)
  show Runs (completed g r request s full finished certificate program) [] post fault
  exact .nil holds

/-- What holds of a run of all passes holds of the program that it leads to. -/
theorem compile_yields {goal : CompiledProgram → Prop} (fault : Pass → CompileError → Prop)
    (runs : Runs { graph := g, registry := r, request, provenance := some (.of g r) } Pass.all
      (fun c => (Compilation.run { graph := g, registry := r, request } .assemble).2 = c →
        ∃ result, c.result = .ok result ∧ goal result) fault) :
    Yields (compile g r request) goal (fun failure => fault failure.1 failure.2) := by
  have all : Compilation.run { graph := g, registry := r, request } .assemble =
      runPasses { graph := g, registry := r, request, provenance := some (.of g r) } Pass.all := by
    rw [Compilation.run, Pass.required_assemble]
  unfold Runs at runs
  unfold compile
  rw [all] at runs ⊢
  rcases ran : runPasses { graph := g, registry := r, request, provenance := some (.of g r) } Pass.all with
    ⟨⟨passes, _ | failure⟩, c⟩
  · rw [ran] at runs
    obtain ⟨result, made, holds⟩ := runs rfl
    simp only [made]
    exact holds
  · rw [ran] at runs
    exact runs

end Compilation
end DspPatch
