import DspPatch.Proofs.Draft.Certificate
import DspPatch.Proofs.Graph.Trim
import DspPatch.Proofs.Reruns

/-!
The certificate that is stored with a compilation. A run that makes the code of the nodes stores a certificate of the
draft and the symbols it leaves, but no later run takes it back: one that ends earlier leaves another draft, or other
symbols, beside the old certificate. All runs on the same inputs follow one course (`Course`), so it can be read off the
last runs that made the two whether the draft and the symbols would still pass (`certificate_holds_iff`).
-/
namespace DspPatch

/-- A partition without nodes and without cold groups. -/
def Partition.IsEmpty (p : Partition) : Prop := p.members = [] ∧ p.cold = []

namespace Draft

theorem holds_iff {d : Draft} {s : Symbols} :
    (d.certificate s).holds = true ↔ Consistent d s ∧ ∀ m ∈ d.nodes.values, m.stage = .finalized := by
  refine ⟨fun holds => ?_, fun ⟨consistent, finalized⟩ => consistent.holds finalized⟩
  simp only [Certificate.holds, Certificate.obligations, certificate, List.all_cons, List.all_nil, Bool.and_true,
    Bool.and_eq_true, List.all_eq_true, decide_eq_true_eq] at holds
  obtain ⟨finalized, nodup, within, named, elided⟩ := holds
  refine ⟨⟨nodup, fun id member => Table.contains_iff.mp (within id member), fun c member => ?_, ?_⟩, finalized⟩
  · exact beq_iff_eq.mp (named c member)
  · intro id m stored inlined
    have entry := elided (id, m) (Table.get?_eq_some_iff.mp stored)
    simp only [inlined, Bool.not_true, Bool.false_or, Bool.and_eq_true] at entry
    exact ⟨by simpa using entry.1, Table.ext (List.isEmpty_iff.mp entry.2)⟩

/-- Of a draft without nodes and groups there is nothing to check. -/
theorem holds_of_empty {d : Draft} (keys : d.nodes.keys = []) (groups : d.partition.IsEmpty) (s : Symbols) :
    (d.certificate s).holds = true := by
  obtain ⟨members, cold⟩ := groups
  have empty : d.nodes.entries = [] := List.map_eq_nil_iff.mp keys
  refine holds_iff.mpr ⟨⟨?_, ?_, ?_, fun id m stored => ?_⟩, fun m member => ?_⟩
  · rw [members]
    exact List.nodup_nil
  · rw [members]
    exact List.forall_mem_nil _
  · rw [cold]
    exact List.forall_mem_nil _
  · have entry := Table.get?_eq_some_iff.mp stored
    rw [empty] at entry
    cases entry
  · rw [Table.values, empty] at member
    cases member

end Draft

namespace Compilation
variable {c after : Compilation} {input : BuildInput} {full : List String} {w : Workspace}

theorem ran_next {p q : Pass} (follows : q.rank = p.rank + 1) (succeeds : (c.run q).1.failure = none) :
    (c.run p).1.failure = none ∧ (c.run p).2.runPass q = (.ok (), (c.run q).2) := by
  rw [run_append c (Pass.required_append follows)] at succeeds ⊢
  rcases before : c.run p with ⟨⟨_, _ | failure⟩, between⟩
  · rw [before] at succeeds
    simp only [runPasses] at succeeds ⊢
    rcases result : between.runPass q with ⟨e | _, last⟩
    · rw [result] at succeeds
      cases succeeds
    · exact ⟨trivial, rfl⟩
  · rw [before] at succeeds
    cases succeeds

theorem need_eq_ok_iff {α : Type} {name : String} {x : Option α} {a : α} : need name x = .ok a ↔ x = some a := by
  cases x <;> simp [need]

theorem atomic_eq_ok_iff {next : Except CompileError Compilation} :
    c.atomic next = (.ok (), after) ↔ next = .ok after := by
  cases next <;> simp [atomic]

theorem buildTraversal_ok (ran : c.runPass .buildTraversal = (.ok (), after)) :
    ∃ full, after = { c with traversal := some full, trimmed := some (c.graph.trim full) } := by
  obtain ⟨s, _, traversed⟩ := bind_eq_ok_iff.mp (atomic_eq_ok_iff.mp ran)
  obtain ⟨full, _, same⟩ := bind_eq_ok_iff.mp traversed
  exact ⟨full, (Except.ok.inj same).symm⟩

theorem allocateNames_ok (ran : c.runPass .allocateNames = (.ok (), after)) :
    ∃ s g symbols, c.settings = some s ∧ c.trimmed = some g ∧ Symbols.ofGraph g s.debug = .ok symbols ∧
      after = { c with symbols := some symbols } := by
  obtain ⟨s, settings, rest⟩ := bind_eq_ok_iff.mp (atomic_eq_ok_iff.mp ran)
  obtain ⟨g, trimmed, rest⟩ := bind_eq_ok_iff.mp rest
  obtain ⟨symbols, named, same⟩ := bind_eq_ok_iff.mp rest
  exact ⟨s, g, symbols, need_eq_ok_iff.mp settings, need_eq_ok_iff.mp trimmed, named, (Except.ok.inj same).symm⟩

theorem resolvePortlets_ok (ran : c.runPass .resolvePortlets = (.ok (), after)) :
    ∃ g full s symbols d, ∃ w : Workspace, c.trimmed = some g ∧ c.traversal = some full ∧ c.settings = some s ∧
      c.symbols = some symbols ∧
      Draft.start g full = .ok d ∧ (Draft.resolvePortlets ⟨g, c.registry, s⟩).run.run ⟨symbols, d⟩ = (.ok (), w) ∧
      after = { c with symbols := some w.symbols, draft := some w.draft } := by
  simp only [runPass, startDraft] at ran
  split at ran
  next => cases ran
  next input w prepared =>
    obtain ⟨g, trimmed, rest⟩ := bind_eq_ok_iff.mp prepared
    obtain ⟨full, traversal, rest⟩ := bind_eq_ok_iff.mp rest
    obtain ⟨d, started, rest⟩ := bind_eq_ok_iff.mp rest
    obtain ⟨s, settings, rest⟩ := bind_eq_ok_iff.mp rest
    obtain ⟨symbols, names, rest⟩ := bind_eq_ok_iff.mp rest
    cases Except.ok.inj rest
    split at ran
    next => cases ran
    next last resolved =>
      exact ⟨g, full, s, symbols, d, last, need_eq_ok_iff.mp trimmed, need_eq_ok_iff.mp traversal,
        need_eq_ok_iff.mp settings, need_eq_ok_iff.mp names, started, resolved, (Prod.mk.inj ran).2.symm⟩

/-- What a compilation holds while it works on a draft. -/
structure Drafting (c : Compilation) (input : BuildInput) (full : List String) (w : Workspace) : Prop where
  registry : c.registry = input.registry
  settings : c.settings = some input.settings
  trimmed : c.trimmed = some input.graph
  traversal : c.traversal = some full
  names : c.symbols = some w.symbols
  code : c.draft = some w.draft

namespace Drafting

theorem continueDraft {α : Type} {work : BuildInput → Build α} {a : α} (drafting : c.Drafting input full w)
    (ran : c.continueDraft work = (.ok a, after)) :
    ∃ next, (work input).run.run w = (.ok a, next) ∧ after.Drafting input full next := by
  rw [continueDraft_eq work drafting.trimmed drafting.settings drafting.names drafting.code, drafting.registry] at ran
  obtain ⟨result, rfl⟩ := Prod.mk.inj ran
  refine ⟨((work input).run.run w).2, Prod.ext result rfl, ?_⟩
  exact ⟨rfl, drafting.settings, drafting.trimmed, drafting.traversal, rfl, rfl⟩

theorem finish (drafting : c.Drafting input full w) (ran : c.runPass .generateNodeCode = (.ok (), after)) :
    ∃ certificate next, (Draft.finish input).run.run w = (.ok certificate, next) ∧ after.Drafting input full next ∧
      after.certificate = some certificate := by
  rw [runPass] at ran
  rcases result : c.continueDraft Draft.finish with ⟨e | certificate, between⟩
  · rw [result] at ran
    cases ran
  · rw [result] at ran
    obtain ⟨_, rfl⟩ := Prod.mk.inj ran
    obtain ⟨next, finished, between⟩ := drafting.continueDraft result
    refine ⟨certificate, next, finished, ?_, rfl⟩
    exact ⟨between.registry, between.settings, between.trimmed, between.traversal, between.names, between.code⟩

theorem assemble (drafting : c.Drafting input full w) :
    (c.runPass .assemble).2.Drafting input full w ∧ (c.runPass .assemble).2.certificate = c.certificate := by
  rw [runPass]
  cases result : c.assemble with
  | error e => exact ⟨drafting, rfl⟩
  | ok after =>
    obtain ⟨d, _, rest⟩ := bind_eq_ok_iff.mp result
    obtain ⟨symbols, _, rest⟩ := bind_eq_ok_iff.mp rest
    obtain ⟨program, _, rest⟩ := bind_eq_ok_iff.mp rest
    cases Except.ok.inj rest
    exact ⟨⟨drafting.registry, drafting.settings, drafting.trimmed, drafting.traversal, drafting.names, drafting.code⟩,
      rfl⟩

end Drafting

/-- The first passes leave a prepared draft, made from what they have found. -/
theorem exists_drafting {built allocated resolved : Compilation} (builds : c.runPass .buildTraversal = (.ok (), built))
    (allocates : built.runPass .allocateNames = (.ok (), allocated))
    (resolves : allocated.runPass .resolvePortlets = (.ok (), resolved)) :
    ∃ input full w s, resolved.Drafting input full w ∧ Draft.Prepared input full .portletsResolved w ∧
      w.draft.types = ∅ ∧ allocated.symbols = some s ∧ Symbols.Initial input.graph input.settings.debug s := by
  obtain ⟨full, rfl⟩ := buildTraversal_ok builds
  obtain ⟨s, g, symbols, settings, trimmed, named, rfl⟩ := allocateNames_ok allocates
  obtain ⟨g', full', s', symbols', d, w, trimmed', traversal, settings', names, started, worked, rfl⟩ :=
    resolvePortlets_ok resolves
  cases Option.some.inj trimmed
  cases Option.some.inj trimmed'
  cases Option.some.inj traversal
  cases Option.some.inj (settings.symm.trans settings')
  cases Option.some.inj names
  have begun := (Draft.start_yields _ _).of_eq_ok started
  have prepared := Build.Ends.of_run (Draft.resolvePortlets_ends (Graph.keyed_trim c.graph full) begun) worked
  exact ⟨_, full, w, symbols, ⟨rfl, settings, rfl, rfl, rfl, rfl⟩, prepared.1, prepared.2.2, rfl,
    (Symbols.ofGraph_yields _ _).of_eq_ok named⟩

/-- What holds of the draft and the symbols that a run to a pass leaves. -/
structure Worked (t : Pass) (w : Workspace) : Prop where
  empty : w.draft.nodes.keys = [] → ∀ s, (w.draft.certificate s).holds = true
  finalized : w.draft.nodes.keys ≠ [] → (∀ m ∈ w.draft.nodes.values, m.stage = .finalized) →
    .generateNodeCode ∈ t.required
  holds : .generateNodeCode ∈ t.required → (w.draft.certificate w.symbols).holds = true

theorem Worked.of_stage {t : Pass} {stage : Stage} (early : t.rank < Pass.rank .generateNodeCode) (other : stage ≠ .finalized)
    (staged : ∀ m ∈ w.draft.nodes.values, m.stage = stage)
    (groups : w.draft.nodes.keys = [] → w.draft.partition.IsEmpty) : Worked t w := by
  refine ⟨fun empty => ?_, fun nonempty finalized => ?_, fun late => ?_⟩
  · exact Draft.holds_of_empty empty (groups empty)
  · obtain ⟨id, member⟩ := List.exists_mem_of_ne_nil _ nonempty
    obtain ⟨m, stored⟩ := Table.mem_keys_iff.mp member
    have listed := Table.mem_values_iff.mpr ⟨id, stored⟩
    exact absurd ((staged m listed).symm.trans (finalized m listed)) other
  · exact absurd (Pass.mem_required_iff.mp late) (Nat.not_le_of_lt early)

theorem Worked.holds_iff {t : Pass} (worked : Worked t w) :
    (w.draft.certificate w.symbols).holds = true ↔ w.draft.nodes.keys = [] ∨ .generateNodeCode ∈ t.required := by
  constructor
  · intro holds
    by_cases empty : w.draft.nodes.keys = []
    · exact .inl empty
    · exact .inr (worked.finalized empty (Draft.holds_iff.mp holds).2)
  · rintro (empty | finishes)
    · exact worked.empty empty w.symbols
    · exact worked.holds finishes

/-- With the symbols of a run that has not begun a draft, no cold group has its name. -/
theorem Worked.holds_initial_iff {t : Pass} {g : Graph} {debug : Bool} {s : Symbols} (worked : Worked t w)
    (initial : Symbols.Initial g debug s) : (w.draft.certificate s).holds = true ↔
      w.draft.nodes.keys = [] ∨ .generateNodeCode ∈ t.required ∧ w.draft.partition.cold = [] := by
  constructor
  · intro holds
    obtain ⟨consistent, finalized⟩ := Draft.holds_iff.mp holds
    by_cases empty : w.draft.nodes.keys = []
    · exact .inl empty
    · refine .inr ⟨worked.finalized empty finalized, List.eq_nil_iff_forall_not_mem.mpr (fun group member => ?_)⟩
      have named := consistent.named group member
      obtain ⟨id, isState⟩ := initial.only _ (named ▸ Option.some_ne_none _)
      cases isState
  · rintro (empty | ⟨finishes, none⟩)
    · exact worked.empty empty s
    · obtain ⟨consistent, finalized⟩ := Draft.holds_iff.mp (worked.holds finishes)
      refine Draft.holds_iff.mpr ⟨⟨consistent.nodup, consistent.within, ?_, consistent.elided⟩, finalized⟩
      rw [none]
      exact List.forall_mem_nil _

/-- The work of runs on a compilation whose nodes get their code. -/
structure Course (c : Compilation) (input : BuildInput) (full : List String) where
  allocated : Symbols
  resolved : Workspace
  collected : Workspace
  divided : Workspace
  spoken : Workspace
  finished : Workspace
  split : Partition
  allocates : (c.run .allocateNames).2.symbols = some allocated
  resolves : (c.run .resolvePortlets).2.Drafting input full resolved
  collects : (c.run .collectDependencies).2.Drafting input full collected
  divides : (c.run .partitionDsp).2.Drafting input full divided
  speaks : (c.run .synthesizeMessages).2.Drafting input full spoken
  finishes : (c.run .generateNodeCode).2.Drafting input full finished
  succeeds : (c.run .generateNodeCode).1.failure = none
  certifies : (c.run .generateNodeCode).2.certificate = some (finished.draft.certificate finished.symbols)
  initial : Symbols.Initial input.graph input.settings.debug allocated
  first : Draft.Prepared input full .portletsResolved resolved
  second : Draft.Prepared input full .dependenciesCollected collected
  division : Draft.Divided input.graph split collected divided
  formed : ∃ signal, Draft.FormedFrom input.graph input.registry full signal split.cold
  synthesis : Draft.Synthesized input divided spoken
  finish : Draft.Finished spoken finished
  holds : (finished.draft.certificate finished.symbols).holds = true

theorem exists_course (succeeds : (c.run .generateNodeCode).1.failure = none) :
    ∃ input full, Nonempty (Course c input full) := by
  obtain ⟨spoken, finishes⟩ := ran_next (p := .synthesizeMessages) rfl succeeds
  obtain ⟨divided, speaks⟩ := ran_next (p := .partitionDsp) rfl spoken
  obtain ⟨collected, divides⟩ := ran_next (p := .collectDependencies) rfl divided
  obtain ⟨resolved, collects⟩ := ran_next (p := .resolvePortlets) rfl collected
  obtain ⟨allocated, resolves⟩ := ran_next (p := .allocateNames) rfl resolved
  obtain ⟨built, allocates⟩ := ran_next (p := .buildTraversal) rfl allocated
  obtain ⟨_, builds⟩ := ran_next (p := .validateSettings) rfl built
  obtain ⟨input, full, w₁, s, drafting₁, first, types, names, initial⟩ := exists_drafting builds allocates resolves
  obtain ⟨w₂, worked, drafting₂⟩ := drafting₁.continueDraft collects
  obtain ⟨second, _, _⟩ := (Draft.collectDependencies_ends first types).of_run worked
  obtain ⟨w₃, worked, drafting₃⟩ := drafting₂.continueDraft divides
  obtain ⟨signal, p, _, _, _, division, _, cut, _⟩ := (Draft.partitionDsp_ends second).of_run worked
  have present : ∀ id ∈ w₃.draft.nodes.keys, ∃ n, input.graph.get? id = some n := by
    rw [division.keys]
    exact fun id member => second.present id ((second.keys id).mp member)
  obtain ⟨w₄, worked, drafting₄⟩ := drafting₃.continueDraft speaks
  have synthesis := (Draft.synthesizeMessages_ends division.staged present).of_run worked
  obtain ⟨certificate, w₅, worked, drafting₅, stored⟩ := drafting₄.finish finishes
  obtain ⟨finish, rfl, holds⟩ := (Draft.finish_ends synthesis.staged (synthesis.keys ▸ present)).of_run worked
  exact ⟨input, full, ⟨s, w₁, w₂, w₃, w₄, w₅, p, names, drafting₁, drafting₂, drafting₃, drafting₄, drafting₅, succeeds,
    stored, initial, first, second, division, ⟨signal, cut.formed⟩, synthesis, finish, holds⟩⟩

namespace Course

/-- The work that a run to a pass leaves. -/
def work (course : Course c input full) : Pass → Workspace
  | .resolvePortlets => course.resolved
  | .collectDependencies => course.collected
  | .partitionDsp => course.divided
  | .synthesizeMessages => course.spoken
  | _ => course.finished

theorem run_assemble (course : Course c input full) :
    (c.run .assemble).2 = ((c.run .generateNodeCode).2.runPass .assemble).2 := by
  have succeeds := course.succeeds
  rw [run_append c (t := .generateNodeCode) (Pass.required_append rfl)]
  rcases ran : c.run .generateNodeCode with ⟨⟨_, _ | failure⟩, after⟩
  · simp only [runPasses]
    rcases after.runPass .assemble with ⟨_ | _, last⟩ <;> rfl
  · rw [ran] at succeeds
    cases succeeds

theorem drafting (course : Course c input full) {t : Pass} (drafts : .resolvePortlets ∈ t.required) :
    (c.run t).2.Drafting input full (course.work t) := by
  cases t with
  | resolvePortlets => exact course.resolves
  | collectDependencies => exact course.collects
  | partitionDsp => exact course.divides
  | synthesizeMessages => exact course.speaks
  | generateNodeCode => exact course.finishes
  | assemble =>
    rw [course.run_assemble]
    exact course.finishes.assemble.1
  | _ => exact absurd (Pass.mem_required_iff.mp drafts) (by decide)

theorem keys (course : Course c input full) (t : Pass) (id : String) :
    id ∈ (course.work t).draft.nodes.keys ↔ id ∈ full := by
  have divided : id ∈ course.divided.draft.nodes.keys ↔ id ∈ full := course.division.keys ▸ course.second.keys id
  have spoken : id ∈ course.spoken.draft.nodes.keys ↔ id ∈ full := course.synthesis.keys ▸ divided
  have finished : id ∈ course.finished.draft.nodes.keys ↔ id ∈ full := course.finish.keys ▸ spoken
  cases t with
  | resolvePortlets => exact course.first.keys id
  | collectDependencies => exact course.second.keys id
  | partitionDsp => exact divided
  | synthesizeMessages => exact spoken
  | _ => exact finished

theorem cold_of_empty (course : Course c input full) (empty : full = []) :
    course.divided.draft.partition.cold = [] := by
  subst empty
  obtain ⟨signal, eligible, _, groups⟩ := course.formed
  have none : course.split.cold = [] := List.map_eq_nil_iff.mp groups
  rw [course.division.partition, Partition.without, none]
  rfl

/-- Without nodes there are no groups: no cold ones are made, and the certificate admits no other nodes. -/
theorem isEmpty_partition (course : Course c input full) (empty : full = []) (t : Pass) :
    (course.work t).draft.partition.IsEmpty := by
  have members : course.finished.draft.partition.members = [] := by
    refine List.eq_nil_iff_forall_not_mem.mpr (fun id member => ?_)
    have listed := (course.keys .assemble id).mp ((Draft.holds_iff.mp course.holds).1.within id member)
    rw [empty] at listed
    cases listed
  have same := (course.synthesis.keepsGroups.trans course.finish.keepsGroups).partition
  have divided : course.divided.draft.partition.IsEmpty := ⟨same ▸ members, course.cold_of_empty empty⟩
  have spoken : course.spoken.draft.partition.IsEmpty := course.synthesis.keepsGroups.partition ▸ divided
  have finished : course.finished.draft.partition.IsEmpty := course.finish.keepsGroups.partition ▸ spoken
  cases t with
  | resolvePortlets => exact course.first.partition ▸ ⟨rfl, rfl⟩
  | collectDependencies => exact course.second.partition ▸ ⟨rfl, rfl⟩
  | partitionDsp => exact divided
  | synthesizeMessages => exact spoken
  | _ => exact finished

theorem worked (course : Course c input full) {t : Pass} (drafts : .resolvePortlets ∈ t.required) :
    Worked t (course.work t) := by
  have groups (empty : (course.work t).draft.nodes.keys = []) : (course.work t).draft.partition.IsEmpty := by
    refine course.isEmpty_partition (List.eq_nil_iff_forall_not_mem.mpr (fun id member => ?_)) t
    have listed := (course.keys t id).mpr member
    rw [empty] at listed
    cases listed
  have late (finishes : .generateNodeCode ∈ t.required) (same : course.work t = course.finished) :
      Worked t (course.work t) :=
    ⟨fun empty => Draft.holds_of_empty empty (groups empty), fun _ _ => finishes, fun _ => same ▸ course.holds⟩
  cases t with
  | resolvePortlets => exact .of_stage (by decide) (by decide) course.first.staged groups
  | collectDependencies => exact .of_stage (by decide) (by decide) course.second.staged groups
  | partitionDsp => exact .of_stage (by decide) (by decide) course.division.staged groups
  | synthesizeMessages => exact .of_stage (by decide) (by decide) course.synthesis.staged groups
  | generateNodeCode => exact late (Pass.mem_required_iff.mpr (by decide)) rfl
  | assemble => exact late (Pass.mem_required_iff.mpr (by decide)) rfl
  | _ => exact absurd (Pass.mem_required_iff.mp drafts) (by decide)

theorem certificate (course : Course c input full) {t : Pass} (finishes : .generateNodeCode ∈ t.required) :
    (c.run t).2.certificate = some (course.finished.draft.certificate course.finished.symbols) := by
  cases t with
  | generateNodeCode => exact course.certifies
  | assemble =>
    rw [course.run_assemble, course.finishes.assemble.2]
    exact course.certifies
  | _ => exact absurd (Pass.mem_required_iff.mp finishes) (by decide)

end Course

/-- A run that ends before the first pass that writes an artifact leaves it. -/
theorem run_frame {t : Pass} {a : Artifact} (early : a.origin ∉ t.required) :
    (c.run t).2.artifact a = c.artifact a := by
  have other (pass : Pass) (member : pass ∈ t.required) (written : a ∈ pass.writes) : False := by
    rw [Pass.mem_required_iff] at early member
    exact early ((Pass.rank_origin_le written).trans member)
  have kept := runPasses_along (fun c after => after.artifact a = c.artifact a) (fun _ => rfl)
    (fun first later => later.trans first) (fun pass member c => (Effect.runPass c pass).frame a (other pass member))
    { c with provenance := some (.of c.graph c.registry) }
  cases a <;> exact kept

/-- A certificate is stored only when the code of the nodes has been made. -/
theorem succeeds_of_certificate (none : c.certificate = none) (stored : .cert ∈ (c.run .generateNodeCode).2.made) :
    (c.run .generateNodeCode).1.failure = .none := by
  have before : (c.run .synthesizeMessages).2.certificate = .none :=
    (run_frame (a := .cert) (mt Pass.mem_required_iff.mp (by decide))).trans none
  obtain ⟨certificate, made⟩ := mem_made_iff.mp stored
  rw [run_append c (t := .synthesizeMessages) (Pass.required_append rfl)] at made ⊢
  rcases ran : c.run .synthesizeMessages with ⟨⟨_, _ | failure⟩, after⟩
  · rw [ran] at made before
    simp only [runPasses, runPass] at made ⊢
    obtain ⟨e, stopped⟩ | ⟨e | found, w, worked⟩ := continueDraft_cases after Draft.finish
    · rw [stopped] at made
      cases before.symm.trans made
    · rw [worked] at made
      cases before.symm.trans made
    · rw [worked]
  · rw [ran] at made before
    cases before.symm.trans made

/-- The last of some runs that runs a pass. -/
def lastRun (pass : Pass) (history : List Pass) : Option Pass := history.reverse.find? (fun t => pass ∈ t.required)

theorem exists_lastRun {history : List Pass} {pass t : Pass} (member : t ∈ history) (runs : pass ∈ t.required) :
    ∃ last, lastRun pass history = some last ∧ pass ∈ last.required := by
  have some : (lastRun pass history).isSome := by
    rw [lastRun, List.find?_isSome]
    exact ⟨t, List.mem_reverse.mpr member, decide_eq_true runs⟩
  obtain ⟨last, found⟩ := Option.isSome_iff_exists.mp some
  obtain ⟨runs, _⟩ := List.find?_eq_some_iff_append.mp found
  exact ⟨last, found, of_decide_eq_true runs⟩

/-- The last run of a pass that goes on to another one is the last of that one, too. -/
theorem lastRun_eq {history : List Pass} {pass later t : Pass} (last : lastRun pass history = some t)
    (goes : later ∈ t.required) (after : ∀ t : Pass, later ∈ t.required → pass ∈ t.required) :
    lastRun later history = some t := by
  obtain ⟨_, before, rest, split, none⟩ := List.find?_eq_some_iff_append.mp last
  refine List.find?_eq_some_iff_append.mpr ⟨decide_eq_true goes, before, rest, split, fun t member => ?_⟩
  have skipped := none t member
  simp only [Bool.not_eq_true', decide_eq_false_iff_not] at skipped ⊢
  exact fun runs => skipped (after t runs)

section History
variable {g : Graph} {r : Registry} {request : SettingsRequest} {history : List Pass} {t : Pass}

/-- An artifact is the one of the last run of the first pass that writes it, if that run has made it. -/
theorem artifact_lastRun {a : Artifact} (last : lastRun a.origin history = some t)
    (made : a ∈ ((start g r request).run t).2.made) :
    ((start g r request).runAll history).artifact a = ((start g r request).run t).2.artifact a := by
  obtain ⟨content, present⟩ := mem_made_iff.mp made
  obtain ⟨_, before, rest, split, skipped⟩ := List.find?_eq_some_iff_append.mp last
  have none : before.findSome? (fun t => ((start g r request).run t).2.artifact a) = none := by
    rw [List.findSome?_eq_none_iff]
    intro t member
    have without := skipped t member
    simp only [Bool.not_eq_true', decide_eq_false_iff_not] at without
    refine (run_frame without).trans ?_
    cases a <;> rfl
  have found : history.reverse.findSome? (fun t => ((start g r request).run t).2.artifact a) = some content := by
    rw [split, List.findSome?_append, none, Option.none_or, List.findSome?_cons, present]
  rw [artifact_runAll, present]
  exact Option.or_eq_some_iff.mpr (.inl found)

theorem exists_run_of_certificate {certificate : Certificate}
    (stored : ((start g r request).runAll history).certificate = some certificate) :
    ∃ t ∈ history, .generateNodeCode ∈ t.required ∧ ((start g r request).run t).2.certificate = some certificate := by
  have found : ((start g r request).runAll history).artifact .cert = some certificate := stored
  rw [artifact_runAll] at found
  obtain ⟨t, member, made⟩ := List.exists_of_findSome?_eq_some ((Option.or_none).symm.trans found)
  refine ⟨t, List.mem_reverse.mp member, ?_, made⟩
  by_contra early
  have kept : ((start g r request).run t).2.artifact .cert = none := run_frame early
  cases kept.symm.trans made

theorem Course.draft_runAll (course : Course (start g r request) input full)
    (last : lastRun .resolvePortlets history = some t) (drafts : .resolvePortlets ∈ t.required) :
    ((start g r request).runAll history).draft = some (course.work t).draft := by
  have drafted := (course.drafting drafts).code
  rw [← drafted]
  exact artifact_lastRun (a := .precompiled) last (mem_made_iff.mpr ⟨_, drafted⟩)

theorem symbols_runAll {s : Symbols} (last : lastRun .allocateNames history = some t)
    (named : ((start g r request).run t).2.symbols = some s) :
    ((start g r request).runAll history).symbols = some s := by
  rw [← named]
  exact artifact_lastRun (a := .names) last (mem_made_iff.mpr ⟨_, named⟩)

/-- The last run that allocates symbols is the last one that begins a draft, or it ends before. -/
theorem lastRun_allocateNames (last : lastRun .allocateNames history = some t) (names : .allocateNames ∈ t.required) :
    t = .allocateNames ∨ t ≠ .allocateNames ∧ lastRun .resolvePortlets history = some t := by
  by_cases drafts : .resolvePortlets ∈ t.required
  · refine .inr ⟨?_, lastRun_eq last drafts (fun t drafts => ?_)⟩
    · rintro rfl
      exact absurd (Pass.mem_required_iff.mp drafts) (by decide)
    · rw [Pass.mem_required_iff] at drafts ⊢
      exact Nat.le_trans (by decide) drafts
  · left
    rw [Pass.mem_required_iff] at names drafts
    revert names drafts
    cases t <;> decide

/-- A stored certificate holds of what it was made from. Of what is there now it holds if the last draft was finished and
    its symbols were not allocated anew, or if there is nothing that it could miss. -/
theorem certificate_holds_iff {certificate : Certificate}
    (stored : ((start g r request).runAll history).certificate = some certificate) :
    certificate.holds = true ∧ ∃ draft symbols, ((start g r request).runAll history).draft = some draft ∧
      ((start g r request).runAll history).symbols = some symbols ∧
      ((draft.certificate symbols).holds = true ↔ draft.nodes.keys = [] ∨
        (∃ t, lastRun .resolvePortlets history = some t ∧ .generateNodeCode ∈ t.required) ∧
        (lastRun .allocateNames history ≠ some .allocateNames ∨ draft.partition.cold = [])) := by
  obtain ⟨t, member, finishes, made⟩ := exists_run_of_certificate stored
  have own : .generateNodeCode ∈ Pass.required .generateNodeCode := Pass.mem_required_iff.mpr le_rfl
  obtain ⟨input, full, ⟨course⟩⟩ := exists_course
    (succeeds_of_certificate rfl (made_of_made own (by decide) (mem_made_iff.mpr ⟨certificate, made⟩)))
  cases Option.some.inj ((course.certificate finishes).symm.trans made)
  have late : Pass.rank .generateNodeCode ≤ t.rank := Pass.mem_required_iff.mp finishes
  obtain ⟨last, isLast, drafts⟩ := exists_lastRun member
    (Pass.mem_required_iff.mpr (Nat.le_trans (by decide : Pass.rank .resolvePortlets ≤ _) late))
  obtain ⟨named, isNamed, names⟩ := exists_lastRun member
    (Pass.mem_required_iff.mpr (Nat.le_trans (by decide : Pass.rank .allocateNames ≤ _) late))
  have draft := course.draft_runAll isLast drafts
  refine ⟨course.holds, (course.work last).draft, ?_⟩
  obtain rfl | ⟨other, same⟩ := lastRun_allocateNames isNamed names
  · refine ⟨course.allocated, draft, symbols_runAll isNamed course.allocates, ?_⟩
    rw [(course.worked drafts).holds_initial_iff course.initial, isLast, isNamed]
    simp
  · cases Option.some.inj (isLast.symm.trans same)
    refine ⟨(course.work last).symbols, draft, symbols_runAll isNamed (course.drafting drafts).names, ?_⟩
    rw [(course.worked drafts).holds_iff, isLast, isNamed]
    simp [other]

end History

/-- The sample patch after some runs. -/
def sampleAfter (history : List Pass) : Compilation :=
  (start Draft.samplePatch Draft.sampleRegistry {}).runAll history

/-- Runs of which the last one ends early. -/
def sampleRuns : Compilation := sampleAfter [.partitionDsp, .assemble, .buildTraversal]

/-- A last run that begins no draft and allocates no symbols leaves the certificate true. -/
theorem certificate_holds_iff_sample : ∃ certificate draft symbols, sampleRuns.certificate = some certificate ∧
    certificate.holds = true ∧ sampleRuns.draft = some draft ∧ sampleRuns.symbols = some symbols ∧
    draft.partition.cold ≠ [] ∧ (draft.certificate symbols).holds = true := by
  have made : sampleRuns.certificate.isSome = true := by decide +kernel
  have cold : ∀ draft ∈ sampleRuns.draft, draft.partition.cold ≠ [] := by decide +kernel
  obtain ⟨certificate, stored⟩ := Option.isSome_iff_exists.mp made
  obtain ⟨holds, draft, symbols, code, names, iff⟩ := certificate_holds_iff stored
  refine ⟨certificate, draft, symbols, stored, holds, code, names, cold draft code, iff.mpr (.inr ⟨?_, .inl ?_⟩)⟩
  · exact ⟨.assemble, by decide +kernel, by decide +kernel⟩
  · decide +kernel

/-- Whether the stored certificate holds, and whether one made anew would. -/
def certified (c : Compilation) : Option (Bool × Bool) := do
  let certificate ← c.certificate
  let draft ← c.draft
  let symbols ← c.symbols
  return (certificate.holds, (draft.certificate symbols).holds)

/-- A shorter run after a finished one leaves an unfinished draft, or symbols without the cold groups, beside the
    certificate. -/
theorem outdated_certificate :
    (sampleAfter [.generateNodeCode, .resolvePortlets]).certified = some (true, false) ∧
    (sampleAfter [.assemble, .allocateNames]).certified = some (true, false) := by
  decide +kernel

end Compilation
end DspPatch
