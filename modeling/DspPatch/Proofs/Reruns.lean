import DspPatch.Proofs.Draft.ExactPartition
import DspPatch.Proofs.Pipeline

/-!
Runs on a compilation that has run before. A pass reads only what earlier passes of the same run have made, so what a
run does to a used compilation is what it does to a fresh one, laid onto what was there (`run_eq_onto`). What was there
shows only where the run makes nothing; but all runs on the same inputs begin with the same passes, so an artifact of a
required pass that the run does not make has not been made by an earlier run either.
-/
namespace DspPatch

namespace Artifact

def all : List Artifact := [settings, traversal, trimmedGraph, names, precompiled, cert, program]

theorem mem_all (a : Artifact) : a ∈ all := by
  cases a <;> decide

/-- What an artifact is. -/
abbrev Content : Artifact → Type
  | settings => Settings
  | traversal => List String
  | trimmedGraph => Graph
  | names => Symbols
  | precompiled => Draft
  | cert => Certificate
  | program => Sequence

/-- The first pass that writes an artifact. -/
def origin : Artifact → Pass
  | settings => .validateSettings
  | traversal | trimmedGraph => .buildTraversal
  | names => .allocateNames
  | precompiled => .resolvePortlets
  | cert => .generateNodeCode
  | program => .assemble

end Artifact

namespace Pass

/-- The artifacts that a pass reads. -/
def reads : Pass → List Artifact
  | validateSettings => []
  | buildTraversal => [.settings]
  | allocateNames => [.settings, .trimmedGraph]
  | resolvePortlets => [.trimmedGraph, .traversal, .settings, .names]
  | collectDependencies | partitionDsp | synthesizeMessages | generateNodeCode =>
    [.trimmedGraph, .settings, .names, .precompiled]
  | assemble => [.precompiled, .names]

/-- The artifacts that a pass writes. The code of the nodes takes new symbols too. -/
def writes : Pass → List Artifact
  | generateNodeCode => [.precompiled, .names, .cert]
  | pass => pass.outputs

theorem rank_origin_le {pass : Pass} {a : Artifact} (written : a ∈ pass.writes) : a.origin.rank ≤ pass.rank := by
  revert written
  cases a <;> cases pass <;> decide

/-- Every pass reads only what is given or made before it. -/
def Supplied (given : List Artifact) : List Pass → Prop
  | [] => True
  | pass :: rest => pass.reads ⊆ given ∧ Supplied (given ++ pass.outputs) rest

instance decidableSupplied : (given : List Artifact) → (passes : List Pass) → Decidable (Supplied given passes)
  | _, [] => instDecidableTrue
  | given, pass :: rest =>
    have := decidableSupplied (given ++ pass.outputs) rest
    inferInstanceAs (Decidable (pass.reads ⊆ given ∧ Supplied (given ++ pass.outputs) rest))

theorem required_eq_take (pass : Pass) : pass.required = all.take (pass.rank + 1) := by
  cases pass <;> decide +kernel

theorem supplied_required (pass : Pass) : Supplied [] pass.required := by
  rw [required_eq_take]
  cases pass <;> decide

theorem mem_required_iff {pass t : Pass} : pass ∈ t.required ↔ pass.rank ≤ t.rank := by
  rw [required_eq_take]
  cases t <;> cases pass <;> decide

theorem required_append {pass next : Pass} (follows : next.rank = pass.rank + 1) :
    pass.required ++ [next] = next.required := by
  rw [required_eq_take, required_eq_take]
  revert follows
  cases pass <;> cases next <;> decide

/-- The passes that lead to one pass begin with those that lead to the other. -/
theorem required_total (pass other : Pass) :
    pass.required <+: other.required ∨ other.required <+: pass.required := by
  rw [required_eq_take, required_eq_take]
  exact List.prefix_or_prefix_of_prefix (List.take_prefix _ _) (List.take_prefix _ _)

end Pass

namespace Compilation

/-- An artifact, if it has been made. -/
def artifact (c : Compilation) : (a : Artifact) → Option a.Content
  | .settings => c.settings
  | .traversal => c.traversal
  | .trimmedGraph => c.trimmed
  | .names => c.symbols
  | .precompiled => c.draft
  | .cert => c.certificate
  | .program => c.program

/-- The artifacts that have been made. -/
def made (c : Compilation) : List Artifact := Artifact.all.filter (fun a => (c.artifact a).isSome)

theorem mem_made_iff {c : Compilation} {a : Artifact} : a ∈ c.made ↔ ∃ content, c.artifact a = some content := by
  rw [made, List.mem_filter, Option.isSome_iff_exists]
  exact ⟨fun listed => listed.2, fun present => ⟨a.mem_all, present⟩⟩

theorem artifact_eq_none_iff {c : Compilation} {a : Artifact} : c.artifact a = none ↔ a ∉ c.made := by
  rw [mem_made_iff, ← Option.isSome_iff_exists, Option.not_isSome_iff_eq_none]

/-- What has been made in `c`, and where nothing has, what was there in `old`. -/
def onto (c old : Compilation) : Compilation :=
  { c with
    settings := c.settings.or old.settings
    traversal := c.traversal.or old.traversal
    trimmed := c.trimmed.or old.trimmed
    symbols := c.symbols.or old.symbols
    draft := c.draft.or old.draft
    certificate := c.certificate.or old.certificate
    program := c.program.or old.program
    provenance := c.provenance.or old.provenance }

theorem artifact_onto (c old : Compilation) (a : Artifact) :
    (c.onto old).artifact a = (c.artifact a).or (old.artifact a) := by
  cases a <;> rfl

theorem mem_made_onto {c old : Compilation} {a : Artifact} : a ∈ (c.onto old).made ↔ a ∈ c.made ∨ a ∈ old.made := by
  rw [← not_iff_not, ← artifact_eq_none_iff, artifact_onto, Option.or_eq_none_iff, artifact_eq_none_iff,
    artifact_eq_none_iff, not_or]

/-- A compilation of which no pass has run. -/
def start (g : Graph) (r : Registry) (request : SettingsRequest) : Compilation := { graph := g, registry := r, request }

/-- The same inputs with nothing made. -/
def fresh (c : Compilation) : Compilation := start c.graph c.registry c.request

section Onto
variable {c old : Compilation} {pass : Pass}

theorem atomic_onto (c old : Compilation) (next : Except CompileError Compilation) :
    (c.onto old).atomic (next.map (fun c => c.onto old)) = ((c.atomic next).1, (c.atomic next).2.onto old) := by
  cases next <;> rfl

theorem validateSettings_onto (c old : Compilation) :
    (c.onto old).validateSettings = c.validateSettings.map (fun c => c.onto old) := by
  unfold validateSettings
  rw [show (c.onto old).request = c.request from rfl, show (c.onto old).graph = c.graph from rfl]
  cases c.request.validate with
  | error => rfl
  | ok s => cases checked : s.checkPortlets c.graph <;> simp only [bind, Except.bind, checked] <;> rfl

theorem buildTraversal_onto (ready : Pass.reads .buildTraversal ⊆ c.made) :
    (c.onto old).buildTraversal = c.buildTraversal.map (fun c => c.onto old) := by
  obtain ⟨s, settings⟩ : ∃ s, c.settings = some s := mem_made_iff.mp (@ready .settings (by decide))
  cases c
  cases settings
  simp only [buildTraversal, onto, need, Option.some_or, bind, Except.bind]
  split <;> rfl

theorem allocateNames_onto (ready : Pass.reads .allocateNames ⊆ c.made) :
    (c.onto old).allocateNames = c.allocateNames.map (fun c => c.onto old) := by
  obtain ⟨s, settings⟩ : ∃ s, c.settings = some s := mem_made_iff.mp (@ready .settings (by decide))
  obtain ⟨g, trimmed⟩ : ∃ g, c.trimmed = some g := mem_made_iff.mp (@ready .trimmedGraph (by decide))
  cases c
  cases settings; cases trimmed
  simp only [allocateNames, onto, need, Option.some_or, bind, Except.bind]
  split <;> rfl

theorem assemble_onto (ready : Pass.reads .assemble ⊆ c.made) :
    (c.onto old).assemble = c.assemble.map (fun c => c.onto old) := by
  obtain ⟨d, code⟩ : ∃ d, c.draft = some d := mem_made_iff.mp (@ready .precompiled (by decide))
  obtain ⟨symbols, names⟩ : ∃ symbols, c.symbols = some symbols := mem_made_iff.mp (@ready .names (by decide))
  cases c
  cases code; cases names
  simp only [assemble, onto, need, Option.some_or, bind, Except.bind]
  split <;> rfl

theorem startDraft_onto (work : BuildInput → Build Unit) (ready : Pass.reads .resolvePortlets ⊆ c.made) :
    (c.onto old).startDraft work = ((c.startDraft work).1, (c.startDraft work).2.onto old) := by
  obtain ⟨g, trimmed⟩ : ∃ g, c.trimmed = some g := mem_made_iff.mp (@ready .trimmedGraph (by decide))
  obtain ⟨full, traversal⟩ : ∃ full, c.traversal = some full := mem_made_iff.mp (@ready .traversal (by decide))
  obtain ⟨s, settings⟩ : ∃ s, c.settings = some s := mem_made_iff.mp (@ready .settings (by decide))
  obtain ⟨symbols, names⟩ : ∃ symbols, c.symbols = some symbols := mem_made_iff.mp (@ready .names (by decide))
  cases c
  cases trimmed; cases traversal; cases settings; cases names
  simp only [startDraft, onto, need, Option.some_or, bind, Except.bind]
  cases Draft.start g full with
  | error => rfl
  | ok d =>
    simp only [pure, Except.pure]
    split <;> rfl

theorem continueDraft_onto {α : Type} (work : BuildInput → Build α)
    (ready : [.trimmedGraph, .settings, .names, .precompiled] ⊆ c.made) :
    (c.onto old).continueDraft work = ((c.continueDraft work).1, (c.continueDraft work).2.onto old) := by
  obtain ⟨g, trimmed⟩ : ∃ g, c.trimmed = some g := mem_made_iff.mp (@ready .trimmedGraph (by decide))
  obtain ⟨s, settings⟩ : ∃ s, c.settings = some s := mem_made_iff.mp (@ready .settings (by decide))
  obtain ⟨symbols, names⟩ : ∃ symbols, c.symbols = some symbols := mem_made_iff.mp (@ready .names (by decide))
  obtain ⟨d, code⟩ : ∃ d, c.draft = some d := mem_made_iff.mp (@ready .precompiled (by decide))
  cases c
  cases trimmed; cases settings; cases names; cases code
  rfl

/-- A pass that has what it reads makes the same onto whatever was there. -/
theorem runPass_onto (old : Compilation) (ready : pass.reads ⊆ c.made) :
    (c.onto old).runPass pass = ((c.runPass pass).1, (c.runPass pass).2.onto old) := by
  cases pass with
  | validateSettings => rw [runPass, validateSettings_onto, atomic_onto, runPass]
  | buildTraversal => rw [runPass, buildTraversal_onto ready, atomic_onto, runPass]
  | allocateNames => rw [runPass, allocateNames_onto ready, atomic_onto, runPass]
  | resolvePortlets => exact startDraft_onto Draft.resolvePortlets ready
  | collectDependencies => exact continueDraft_onto Draft.collectDependencies ready
  | partitionDsp => exact continueDraft_onto Draft.partitionDsp ready
  | synthesizeMessages => exact continueDraft_onto Draft.synthesizeMessages ready
  | generateNodeCode =>
    simp only [runPass, continueDraft_onto Draft.finish ready]
    rcases c.continueDraft Draft.finish with ⟨_ | _, _⟩ <;> rfl
  | assemble => rw [runPass, assemble_onto ready, atomic_onto, runPass]

end Onto

/-- Work on a draft that can begin leaves its symbols and its draft, also if it fails. -/
theorem continueDraft_cases {α : Type} (c : Compilation) (work : BuildInput → Build α) :
    (∃ e, c.continueDraft work = (.error e, c)) ∨ ∃ result, ∃ w : Workspace, c.continueDraft work =
      (result, { c with symbols := some w.symbols, draft := some w.draft }) := by
  unfold continueDraft
  dsimp only
  split
  next e _ => exact .inl ⟨e, rfl⟩
  next input w _ => exact .inr ⟨((work input).run.run w).1, ((work input).run.run w).2, rfl⟩

/-- What a pass does to the artifacts, whether it succeeds or not. -/
structure Effect (c : Compilation) (pass : Pass) (result : Except CompileError Unit) (after : Compilation) : Prop where
  inputs : after.fresh = c.fresh
  frame : ∀ a ∉ pass.writes, after.artifact a = c.artifact a
  keeps : c.made ⊆ after.made
  makes : result = .ok () → pass.outputs ⊆ after.made

namespace Effect
variable {c : Compilation} {pass : Pass}

theorem unchanged (c : Compilation) (pass : Pass) (e : CompileError) : Effect c pass (.error e) c :=
  ⟨rfl, fun _ _ => rfl, fun _ made => made, fun failed => nomatch failed⟩

/-- A pass that lays what it makes onto what is there. -/
theorem of_onto {result : Except CompileError Unit} {new : Compilation} (artifacts : List Artifact)
    (inputs : new.fresh = c.fresh) (made : new.made = artifacts) (only : artifacts ⊆ pass.writes)
    (makes : result = .ok () → pass.outputs ⊆ artifacts) : Effect c pass result (new.onto c) := by
  subst made
  refine ⟨inputs, fun a other => ?_, fun a old => ?_, fun done a output => ?_⟩
  · rw [artifact_onto, artifact_eq_none_iff.mpr (fun listed => other (only listed)), Option.none_or]
  · exact mem_made_onto.mpr (.inr old)
  · exact mem_made_onto.mpr (.inl (makes done output))

theorem atomic {next : Except CompileError Compilation}
    (effect : Yields next (Effect c pass (.ok ())) (fun _ => True)) :
    Effect c pass (c.atomic next).1 (c.atomic next).2 := by
  cases next with
  | error e => exact unchanged c pass e
  | ok after => exact effect

theorem startDraft (c : Compilation) (work : BuildInput → Build Unit) :
    Effect c .resolvePortlets (c.startDraft work).1 (c.startDraft work).2 := by
  unfold Compilation.startDraft
  dsimp only
  split
  next e _ => exact unchanged c _ e
  next input w _ =>
    split
    next e after _ =>
      show Effect c _ _ (onto { c.fresh with symbols := some after.symbols } c)
      exact of_onto [.names] rfl rfl (by decide) (fun failed => nomatch failed)
    next after _ =>
      show Effect c _ _ (onto { c.fresh with symbols := some after.symbols, draft := some after.draft } c)
      exact of_onto [.names, .precompiled] rfl rfl (by decide) (fun _ => by decide)

theorem continueDraft (c : Compilation) (work : BuildInput → Build Unit)
    (outputs : pass.outputs = [.precompiled, .names]) (writes : pass.outputs ⊆ pass.writes) :
    Effect c pass (c.continueDraft work).1 (c.continueDraft work).2 := by
  rw [outputs] at writes
  obtain ⟨e, stopped⟩ | ⟨result, w, worked⟩ := continueDraft_cases c work
  · rw [stopped]
    exact unchanged c pass e
  · rw [worked]
    show Effect c _ _ (onto { c.fresh with symbols := some w.symbols, draft := some w.draft } c)
    refine of_onto [.names, .precompiled] rfl rfl (fun a listed => writes ?_) (fun _ => ?_)
    · revert a
      decide
    · rw [outputs]
      decide

theorem generateNodeCode (c : Compilation) :
    Effect c .generateNodeCode (c.runPass .generateNodeCode).1 (c.runPass .generateNodeCode).2 := by
  unfold Compilation.runPass
  obtain ⟨e, stopped⟩ | ⟨e | certificate, w, worked⟩ := continueDraft_cases c Draft.finish
  · rw [stopped]
    exact unchanged c _ e
  · rw [worked]
    show Effect c _ _ (onto { c.fresh with symbols := some w.symbols, draft := some w.draft } c)
    exact of_onto [.names, .precompiled] rfl rfl (by decide) (fun failed => nomatch failed)
  · rw [worked]
    show Effect c _ _ (onto { c.fresh with
      symbols := some w.symbols, draft := some w.draft, certificate := some certificate } c)
    exact of_onto [.names, .precompiled, .cert] rfl rfl (by decide) (fun _ => by decide)

theorem runPass (c : Compilation) (pass : Pass) : Effect c pass (c.runPass pass).1 (c.runPass pass).2 := by
  cases pass with
  | validateSettings =>
    refine atomic (Yields.bind (.any _) (fun s _ => Yields.bind (.any _) (fun _ _ => ?_)))
    show Effect c _ _ (onto { c.fresh with settings := some s } c)
    exact of_onto [.settings] rfl rfl (by decide) (fun _ => by decide)
  | buildTraversal =>
    refine atomic (Yields.bind (.any _) (fun s _ => Yields.bind (.any _) (fun full _ => ?_)))
    show Effect c _ _ (onto { c.fresh with traversal := some full, trimmed := some (c.graph.trim full) } c)
    exact of_onto [.traversal, .trimmedGraph] rfl rfl (by decide) (fun _ => by decide)
  | allocateNames =>
    refine atomic (Yields.bind (.any _) (fun s _ => Yields.bind (.any _) (fun g _ => Yields.bind (.any _)
      (fun symbols _ => ?_))))
    show Effect c _ _ (onto { c.fresh with symbols := some symbols } c)
    exact of_onto [.names] rfl rfl (by decide) (fun _ => by decide)
  | resolvePortlets => exact startDraft c Draft.resolvePortlets
  | collectDependencies => exact continueDraft c Draft.collectDependencies rfl (by decide)
  | partitionDsp => exact continueDraft c Draft.partitionDsp rfl (by decide)
  | synthesizeMessages => exact continueDraft c Draft.synthesizeMessages rfl (by decide)
  | generateNodeCode => exact generateNodeCode c
  | assemble =>
    refine atomic (Yields.bind (.any _) (fun d _ => Yields.bind (.any _) (fun symbols _ => Yields.bind (.any _)
      (fun program _ => ?_))))
    show Effect c _ _ (onto { c.fresh with program := some program } c)
    exact of_onto [.program] rfl rfl (by decide) (fun _ => by decide)

end Effect

/-- The passes of two lists run one after the other: the second only if the first succeed. -/
theorem runPasses_append (c : Compilation) (passes more : List Pass) :
    c.runPasses (passes ++ more) = match c.runPasses passes with
      | (⟨ran, some failure⟩, after) => (⟨ran, some failure⟩, after)
      | (⟨ran, none⟩, after) => (⟨ran ++ (after.runPasses more).1.passes, (after.runPasses more).1.failure⟩,
          (after.runPasses more).2) := by
  induction passes generalizing c with
  | nil => rfl
  | cons pass rest ih =>
    simp only [List.cons_append, runPasses]
    rcases c.runPass pass with ⟨e | _, after⟩
    · rfl
    · simp only [ih]
      rcases after.runPasses rest with ⟨⟨ran, _ | failure⟩, last⟩ <;> rfl

section Runs
variable {c : Compilation} {passes : List Pass}

/-- What every pass keeps, a run keeps. -/
theorem runPasses_along (rel : Compilation → Compilation → Prop) (refl : ∀ c, rel c c)
    (trans : ∀ {a b c}, rel a b → rel b c → rel a c) (step : ∀ pass ∈ passes, ∀ c, rel c (c.runPass pass).2)
    (c : Compilation) : rel c (c.runPasses passes).2 := by
  induction passes generalizing c with
  | nil => exact refl c
  | cons pass rest ih =>
    have first := step pass List.mem_cons_self c
    have later := ih (fun pass member => step pass (List.mem_cons_of_mem _ member))
    rw [runPasses]
    rcases ran : c.runPass pass with ⟨e | _, after⟩
    · rw [ran] at first
      exact first
    · rw [ran] at first
      exact trans first (later after)

theorem runPasses_keeps (c : Compilation) (passes : List Pass) : c.made ⊆ (c.runPasses passes).2.made :=
  runPasses_along (fun c after => c.made ⊆ after.made) (fun _ => List.Subset.refl _) List.Subset.trans
    (fun pass _ c => (Effect.runPass c pass).keeps) c

theorem runPasses_fresh (c : Compilation) (passes : List Pass) : (c.runPasses passes).2.fresh = c.fresh :=
  runPasses_along (fun c after => after.fresh = c.fresh) (fun _ => rfl) (fun first later => later.trans first)
    (fun pass _ c => (Effect.runPass c pass).inputs) c

/-- A run that succeeds has made the artifacts of its passes. -/
theorem runPasses_makes (succeeds : (c.runPasses passes).1.failure = none) :
    ∀ pass ∈ passes, pass.outputs ⊆ (c.runPasses passes).2.made := by
  induction passes generalizing c with
  | nil => exact List.forall_mem_nil _
  | cons pass rest ih =>
    have effect := Effect.runPass c pass
    rw [runPasses] at succeeds ⊢
    rcases ran : c.runPass pass with ⟨e | _, after⟩
    · rw [ran] at succeeds
      cases succeeds
    · rw [ran] at succeeds effect
      have kept := List.Subset.trans (effect.makes rfl) (runPasses_keeps after rest)
      exact List.forall_mem_cons.mpr ⟨kept, ih succeeds⟩

theorem runPasses_onto (old : Compilation) {given : List Artifact} (supplied : Pass.Supplied given passes)
    (ready : given ⊆ c.made) :
    (c.onto old).runPasses passes = ((c.runPasses passes).1, (c.runPasses passes).2.onto old) := by
  induction passes generalizing c given with
  | nil => rfl
  | cons pass rest ih =>
    have effect := Effect.runPass c pass
    rw [runPasses, runPasses, runPass_onto old (List.Subset.trans supplied.1 ready)]
    rcases ran : c.runPass pass with ⟨e | _, after⟩
    · rfl
    · rw [ran] at effect
      have all : given ++ pass.outputs ⊆ after.made :=
        List.append_subset.mpr ⟨List.Subset.trans ready effect.keeps, effect.makes rfl⟩
      simp only [ih supplied.2 all]

end Runs

/-- A run does to a used compilation what it does to a fresh one, laid onto what was there. -/
theorem run_eq_onto (c : Compilation) (terminal : Pass) :
    c.run terminal = ((c.fresh.run terminal).1, (c.fresh.run terminal).2.onto c) :=
  runPasses_onto (c := { c.fresh with provenance := some (.of c.graph c.registry) }) c terminal.supplied_required
    (List.nil_subset _)

/-- A run to a later pass goes on where the run to an earlier one ends, if that one succeeds. -/
theorem run_append {t later : Pass} {rest : List Pass} (c : Compilation) (split : t.required ++ rest = later.required) :
    c.run later = match c.run t with
      | (⟨ran, some failure⟩, after) => (⟨ran, some failure⟩, after)
      | (⟨ran, none⟩, after) => (⟨ran ++ (after.runPasses rest).1.passes, (after.runPasses rest).1.failure⟩,
          (after.runPasses rest).2) := by
  rw [run, ← split, runPasses_append]
  rfl

/-- A compilation after runs to the given terminals. -/
def runAll (c : Compilation) (terminals : List Pass) : Compilation := terminals.foldl (fun c t => (c.run t).2) c

theorem fresh_run (c : Compilation) (terminal : Pass) : (c.run terminal).2.fresh = c.fresh :=
  runPasses_fresh _ _

theorem fresh_runAll (c : Compilation) (terminals : List Pass) : (c.runAll terminals).fresh = c.fresh := by
  induction terminals generalizing c with
  | nil => rfl
  | cons t rest ih => exact (ih (c.run t).2).trans (fresh_run c t)

/-- After several runs every artifact is the one that the last run to make it has made. -/
theorem artifact_runAll (c : Compilation) (terminals : List Pass) (a : Artifact) :
    (c.runAll terminals).artifact a =
      (terminals.reverse.findSome? (fun t => (c.fresh.run t).2.artifact a)).or (c.artifact a) := by
  induction terminals generalizing c with
  | nil => rfl
  | cons t rest ih =>
    have later := ih (c.run t).2
    have laid : (c.run t).2 = (c.fresh.run t).2.onto c := congrArg Prod.snd (run_eq_onto c t)
    rw [fresh_run] at later
    rw [List.reverse_cons, List.findSome?_append, List.findSome?_singleton, Option.or_assoc, ← artifact_onto, ← laid]
    exact later

/-- Of two runs on the same compilation, the one makes of what its passes make all that the other makes of it. -/
theorem made_of_made {c : Compilation} {t other pass : Pass} {a : Artifact} (required : pass ∈ t.required)
    (output : a ∈ pass.outputs) (made : a ∈ (c.run other).2.made) : a ∈ (c.run t).2.made := by
  rcases Pass.required_total other t with ⟨rest, shorter⟩ | ⟨rest, longer⟩
  · rw [run_append c shorter]
    rcases ran : c.run other with ⟨⟨_, _ | failure⟩, after⟩
    · rw [ran] at made
      exact runPasses_keeps after rest made
    · rw [ran] at made
      exact made
  · have makes : (c.run t).1.failure = none → ∀ pass ∈ t.required, pass.outputs ⊆ (c.run t).2.made := runPasses_makes
    rw [run_append c longer] at made
    rcases ran : c.run t with ⟨⟨_, _ | failure⟩, after⟩
    · rw [ran] at makes
      exact makes rfl pass required output
    · rw [ran] at made
      exact made

/-- Under what a run makes of an artifact that it requires, earlier runs do not show. -/
theorem artifact_or_runAll {c : Compilation} {t pass : Pass} {a : Artifact} (required : pass ∈ t.required)
    (output : a ∈ pass.outputs) (history : List Pass) :
    ((c.fresh.run t).2.artifact a).or ((c.fresh.runAll history).artifact a) = (c.fresh.run t).2.artifact a := by
  cases made : (c.fresh.run t).2.artifact a with
  | some content => rfl
  | none =>
    rw [Option.none_or, artifact_runAll, Option.or_eq_none_iff, List.findSome?_eq_none_iff]
    refine ⟨fun other _ => ?_, ?_⟩
    · rw [artifact_eq_none_iff] at made ⊢
      exact fun earlier => made (made_of_made required output earlier)
    · cases a <;> rfl

/-- A run reports and makes the same whatever runs came before it. -/
theorem run_after_runs (g : Graph) (r : Registry) (request : SettingsRequest) (history : List Pass) (t : Pass) :
    (((start g r request).runAll history).run t).1 = ((start g r request).run t).1 ∧
    ∀ pass ∈ t.required, ∀ a ∈ pass.outputs,
      (((start g r request).runAll history).run t).2.artifact a = ((start g r request).run t).2.artifact a := by
  rw [run_eq_onto, fresh_runAll]
  refine ⟨rfl, fun pass required a output => ?_⟩
  exact (artifact_onto _ _ a).trans (artifact_or_runAll required output history)

/-- Runs of the sample patch, some of which fail where its types are not known. -/
def sampleHistory : List Pass := [.resolvePortlets, .assemble, .allocateNames]

/-- Without the types of the sample patch every run beyond its portlets fails, also after others that failed. -/
theorem run_after_runs_failing :
    ((start Draft.samplePatch .empty {}).run .partitionDsp).1.failure.map Prod.fst = some .collectDependencies ∧
    .resolvePortlets ∈ Pass.required .partitionDsp ∧ .names ∈ Pass.outputs .resolvePortlets ∧
    (((start Draft.samplePatch .empty {}).runAll sampleHistory).run .partitionDsp).1 =
      ((start Draft.samplePatch .empty {}).run .partitionDsp).1 ∧
    (((start Draft.samplePatch .empty {}).runAll sampleHistory).run .partitionDsp).2.symbols =
      ((start Draft.samplePatch .empty {}).run .partitionDsp).2.symbols := by
  have required : .resolvePortlets ∈ Pass.required .partitionDsp := Pass.mem_required_iff.mpr (by decide)
  have output : .names ∈ Pass.outputs .resolvePortlets := by decide
  have alike := run_after_runs Draft.samplePatch .empty {} sampleHistory .partitionDsp
  exact ⟨by decide +kernel, required, output, alike.1, alike.2 .resolvePortlets required .names output⟩

end Compilation
end DspPatch
