import DspPatch.Proofs.Draft.Dependencies
import DspPatch.Proofs.Pipeline
import DspPatch.Proofs.Reruns

/-!
Identities of definitions have no influence on compilations. All that is done with them is to tell definitions apart while
they are listed. So a renaming that keeps the definitions of a registry apart goes through flattening
(`Definition.flatten_rename`), and the shared code, all passes and the program are the same (`compile_eq_of_renamed`).
-/
namespace DspPatch

namespace Definition
variable {ρ : Nat → Nat} {d e : Definition} {roots done : List Definition}

/-- The definition with other identities, its own and those of all that it needs. -/
def rename (ρ : Nat → Nat) : Definition → Definition
  | ⟨id, tag, locals, dependencies, imports, exports, code⟩ =>
    ⟨ρ id, tag, locals, dependencies.map (rename ρ), imports, exports, code⟩

theorem rename_eq (ρ : Nat → Nat) (d : Definition) :
    d.rename ρ = { d with id := ρ d.id, dependencies := d.dependencies.map (rename ρ) } := by
  cases d
  rw [rename]

@[simp] theorem id_rename (ρ : Nat → Nat) (d : Definition) : (d.rename ρ).id = ρ d.id := by
  rw [rename_eq]

@[simp] theorem dependencies_rename (ρ : Nat → Nat) (d : Definition) :
    (d.rename ρ).dependencies = d.dependencies.map (rename ρ) := by
  rw [rename_eq]

theorem reaches_of_mem_flattenInto (reached : Reaches roots d) (listed : ∀ e ∈ done, Reaches roots e) :
    ∀ e ∈ d.flattenInto done, Reaches roots e := by
  obtain ⟨root, member, chain⟩ := reached
  refine (flattenInto_spec (fun done => ∀ e ∈ done, Reaches roots e) (fun e done below _ sound other earlier => ?_) listed).1
  rcases mem_list earlier with rfl | earlier
  · exact ⟨root, member, chain.trans below⟩
  · exact sound other earlier

/-- What goes through listing one definition after another goes through listing all of them. -/
theorem flattenEach_rename {ds : List Definition} (reached : ∀ d ∈ ds, Reaches roots d)
    (each : ∀ d ∈ ds, ∀ {done}, (∀ e ∈ done, Reaches roots e) →
      (d.rename ρ).flattenInto (done.map (rename ρ)) = (d.flattenInto done).map (rename ρ))
    (listed : ∀ e ∈ done, Reaches roots e) :
    flattenEach (ds.map (rename ρ)) (done.map (rename ρ)) = (flattenEach ds done).map (rename ρ) := by
  induction ds generalizing done with
  | nil => rw [List.map_nil, flattenEach, flattenEach]
  | cons d ds ih =>
    rw [List.forall_mem_cons] at reached each
    rw [List.map_cons, flattenEach, flattenEach, each.1 listed]
    exact ih reached.2 each.2 (reaches_of_mem_flattenInto reached.1 listed)

/-- The renaming keeps apart what the roots need. -/
def Apart (ρ : Nat → Nat) (roots : List Definition) : Prop :=
  ∀ {d e}, Reaches roots d → Reaches roots e → ρ d.id = ρ e.id → d.id = e.id

section Flattening
variable (apart : Apart ρ roots)
include apart

theorem isListed_rename (reached : Reaches roots d) (listed : ∀ e ∈ done, Reaches roots e) :
    isListed (ρ d.id) (done.map (rename ρ)) = isListed d.id done := by
  rw [Bool.eq_iff_iff, isListed_iff, isListed_iff]
  constructor
  · rintro ⟨_, member, same⟩
    obtain ⟨e, earlier, rfl⟩ := List.mem_map.mp member
    exact ⟨e, earlier, apart (listed e earlier) reached (e.id_rename ρ ▸ same)⟩
  · rintro ⟨e, earlier, same⟩
    exact ⟨e.rename ρ, List.mem_map_of_mem earlier, by rw [id_rename, same]⟩

theorem list_rename (reached : Reaches roots d) (listed : ∀ e ∈ done, Reaches roots e) :
    (d.rename ρ).list (done.map (rename ρ)) = (d.list done).map (rename ρ) := by
  unfold list
  rw [id_rename, isListed_rename apart reached listed]
  split <;> simp

theorem flattenInto_rename (reached : Reaches roots d) (listed : ∀ e ∈ done, Reaches roots e) :
    (d.rename ρ).flattenInto (done.map (rename ρ)) = (d.flattenInto done).map (rename ρ) := by
  induction d using Definition.induction generalizing done with
  | step d ih =>
    have below : ∀ dependency ∈ d.dependencies, Reaches roots dependency := by
      obtain ⟨root, member, chain⟩ := reached
      exact fun dependency needed => ⟨root, member, chain.tail needed⟩
    have later : ∀ e ∈ flattenEach d.dependencies done, Reaches roots e :=
      (flattenEach_spec (fun done => ∀ e ∈ done, Reaches roots e) (fun dependency needed done listed =>
        ⟨reaches_of_mem_flattenInto (below dependency needed) listed,
          (flattenInto_spec (fun _ => True) (fun _ _ _ _ _ => trivial) trivial).2⟩) listed).1
    rw [flattenInto_eq, flattenInto_eq, id_rename, isListed_rename apart reached listed]
    split
    next => rfl
    next =>
      rw [dependencies_rename, flattenEach_rename below (fun e needed _ => ih e needed (below e needed)) listed,
        list_rename apart reached later]

/-- Renamed roots are flattened like the roots. -/
theorem flatten_rename : flatten (roots.map (rename ρ)) = (flatten roots).map (rename ρ) :=
  flattenEach_rename (fun root member => ⟨root, member, .refl⟩)
    (fun root member _ => flattenInto_rename apart ⟨root, member, .refl⟩) (List.forall_mem_nil _)

end Flattening
end Definition

/-- The code of a definition is made from its tag, its names and its generator. -/
theorem SharedCode.addDefinition_rename (ρ : Nat → Nat) (symbols : Symbols) (settings : Settings) (shared : SharedCode)
    (d : Definition) : shared.addDefinition symbols settings (d.rename ρ) = shared.addDefinition symbols settings d := by
  rw [d.rename_eq]
  rfl

theorem SharedCode.collect_rename {ρ : Nat → Nat} {roots : List Definition} (apart : Definition.Apart ρ roots)
    (settings : Settings) (symbols : Symbols) :
    collect (roots.map (Definition.rename ρ)) settings symbols = collect roots settings symbols := by
  have names (d : Definition) : (d.rename ρ).names.map (fun n => ((d.rename ρ).tag, n)) = d.names.map (fun n => (d.tag, n)) := by
    rw [d.rename_eq]
    rfl
  unfold collect
  simp only [Definition.flatten_rename apart, List.flatMap_map, names, List.foldlM_map, addDefinition_rename]

def Implementation.rename (ρ : Nat → Nat) (i : Implementation) : Implementation :=
  { i with dependencies := i.dependencies.map (Definition.rename ρ) }

/-- The second registry is the first one with other identities, up to the order of its types. -/
structure Registry.Renamed (ρ : Nat → Nat) (r r' : Registry) : Prop where
  standard : r'.standard = r.standard.map (Definition.rename ρ)
  types : ∀ type, r'.types.get? type = (r.types.get? type).map (Implementation.rename ρ)
  apart : ∀ {d e}, r.Holds d → r.Holds e → ρ d.id = ρ e.id → d.id = e.id

/-- Without a key that occurs twice, entries have one order when sorted by their keys. -/
theorem mergeSort_eq_of_perm {α : Type} {t t' : Table α} (perm : t.entries.Perm t'.entries) :
    t.entries.mergeSort (fun a b => !(b.1 < a.1)) = t'.entries.mergeSort (fun a b => !(b.1 < a.1)) := by
  have notAfter (a b : String × α) : (!(b.1 < a.1)) = true ↔ a.1 ≤ b.1 := by
    rw [Bool.not_eq_true', decide_eq_false_iff_not, String.not_lt]
  have trans (a b c : String × α) : !(b.1 < a.1) → !(c.1 < b.1) → !(c.1 < a.1) := by
    rw [notAfter, notAfter, notAfter]
    exact String.le_trans
  have total (a b : String × α) : !(b.1 < a.1) || !(a.1 < b.1) := by
    rw [Bool.or_eq_true, notAfter, notAfter]
    exact String.le_total a.1 b.1
  refine List.Perm.eq_of_pairwise (fun a b aListed bListed ab ba => ?_) (List.pairwise_mergeSort trans total _)
    (List.pairwise_mergeSort trans total _) ((List.mergeSort_perm _ _).trans (perm.trans (List.mergeSort_perm _ _).symm))
  rw [notAfter] at ab ba
  rw [List.mem_mergeSort] at aListed bListed
  rw [← perm.mem_iff] at bListed
  have names : a.1 = b.1 := String.le_antisymm ab ba
  have values := Table.get?_eq_some_iff.mpr aListed
  rw [names, Table.get?_eq_some_iff.mpr bListed] at values
  exact Prod.ext names (Option.some.inj values).symm

theorem map_bind {α β γ : Type} (x : Except CompileError α) (f : α → β) (k : β → Except CompileError γ) :
    (x.map f >>= k) = x >>= fun a => k (f a) := by
  cases x <;> rfl

/-- Steps that go through a change of the state go through it in turn. -/
theorem foldlM_map {α σ τ : Type} {f : σ → τ} {step : σ → α → Except CompileError σ} {step' : τ → α → Except CompileError τ}
    (each : ∀ s a, step' (f s) a = (step s a).map f) (items : List α) (s : σ) :
    items.foldlM step' (f s) = (items.foldlM step s).map f := by
  induction items generalizing s with
  | nil => rfl
  | cons a items ih =>
    rw [List.foldlM_cons, List.foldlM_cons, each, map_bind]
    simp only [ih]
    cases step s a <;> rfl

theorem lift_map_bind {α β γ : Type} (x : Except CompileError α) (f : α → β) (k : β → Build γ) :
    ((liftM (x.map f) : Build β) >>= k) = (liftM x : Build α) >>= fun a => k (f a) := by
  cases x <;> rfl

theorem lift_bind_congr {α γ : Type} {x : Except CompileError α} {k k' : α → Build γ} (same : ∀ a, x = .ok a → k a = k' a) :
    ((liftM x : Build α) >>= k) = (liftM x : Build α) >>= k' := by
  cases x with
  | error => rfl
  | ok a => exact same a rfl

namespace Registry.Renamed
variable {ρ : Nat → Nat} {r r' : Registry} (renamed : r.Renamed ρ r')
include renamed

theorem implementation (n : Node) : r'.implementation n = (r.implementation n).map (Implementation.rename ρ) := by
  rw [Registry.implementation, Registry.implementation, renamed.types]
  cases r.types.get? n.type <;> rfl

theorem collect {roots : List Definition} (held : ∀ root ∈ roots, r.Holds root) (settings : Settings) (symbols : Symbols) :
    SharedCode.collect (r'.standard ++ roots.map (Definition.rename ρ)) settings symbols =
      SharedCode.collect (r.standard ++ roots) settings symbols := by
  rw [renamed.standard, ← List.map_append]
  refine SharedCode.collect_rename (fun first second => ?_) settings symbols
  exact renamed.apart (holds_of_reaches held first) (holds_of_reaches held second)

theorem entries_perm : r'.types.entries.Perm (r.types.map (Implementation.rename ρ)).entries := by
  rw [List.perm_ext_iff_of_nodup (.of_map _ r'.types.nodup) (.of_map _ (Table.nodup _))]
  rintro ⟨type, i⟩
  rw [← Table.get?_eq_some_iff, ← Table.get?_eq_some_iff, renamed.types, Table.get?_map]

/-- Sorted by their names, the types stand in one order only, and their flags do not depend on identities. -/
theorem text : r.text = r'.text := by
  have sorted : r'.types.entries.mergeSort (fun a b => !(b.1 < a.1)) =
      (r.types.entries.mergeSort (fun a b => !(b.1 < a.1))).map (fun entry => (entry.1, entry.2.rename ρ)) :=
    (mergeSort_eq_of_perm renamed.entries_perm).trans
      (List.map_mergeSort (f := fun (entry : String × Implementation) => (entry.1, entry.2.rename ρ)) (fun _ _ _ _ => rfl)).symm
  rw [Registry.text, Registry.text, sorted, List.map_map]
  rfl

end Registry.Renamed

namespace Draft
variable {ρ : Nat → Nat} {r r' : Registry} (renamed : r.Renamed ρ r') (g : Graph) (s : Settings)
include renamed

theorem implementations_renamed (ids : List String) :
    implementations ⟨g, r', s⟩ ids = (implementations ⟨g, r, s⟩ ids).map (Table.map (Implementation.rename ρ)) := by
  unfold implementations
  refine foldlM_map (f := Table.map (Implementation.rename ρ)) (fun types id => ?_) ids ∅
  simp only [renamed.implementation, map_bind]
  cases g.node id with
  | error => rfl
  | ok n =>
    show (r.implementation n >>= _) = (r.implementation n >>= _).map _
    cases r.implementation n with
    | error => rfl
    | ok i => exact congrArg Except.ok (types.map_insertNew (Implementation.rename ρ) n.type i).symm

omit renamed in
/-- Work that does not see dependencies does the same with other identities. -/
theorem forM_rename {work : String × Implementation → Build Unit} (same : ∀ type i, work (type, i.rename ρ) = work (type, i))
    (types : Table Implementation) : (types.map (Implementation.rename ρ)).entries.forM work = types.entries.forM work := by
  simp only [Table.map, List.forM_eq_forM, List.forM_map, same]


theorem collectShared_renamed {ds : List Definition} (held : ∀ d ∈ ds, r.Holds d) :
    collectShared ⟨g, r', s⟩ (ds.map (Definition.rename ρ)) = collectShared ⟨g, r, s⟩ ds := by
  unfold collectShared
  simp only [renamed.collect held]

theorem collectDependencies_renamed : collectDependencies ⟨g, r, s⟩ = collectDependencies ⟨g, r', s⟩ := by
  unfold collectDependencies
  refine congrArg (Build.pass _ _) (bind_congr (fun ids => ?_))
  rw [implementations_renamed renamed]
  rw [lift_map_bind]
  refine lift_bind_congr (fun types made => ?_)
  have held : ∀ d ∈ types.values.flatMap Implementation.dependencies, r.Holds d :=
    fun _ => ((implementations_yields ⟨g, r, s⟩ ids).of_eq_ok made).holds
  have dependencies : (types.map (Implementation.rename ρ)).values.flatMap Implementation.dependencies =
      (types.values.flatMap Implementation.dependencies).map (Definition.rename ρ) := by
    simp [Table.values, Table.map, List.flatMap_map, List.map_flatMap, Implementation.rename]
  rw [forM_rename (fun _ _ => rfl), forM_rename (fun _ _ => rfl), dependencies, collectShared_renamed renamed g s held]
  rfl

theorem partitionDsp_renamed : partitionDsp ⟨g, r, s⟩ = partitionDsp ⟨g, r', s⟩ := by
  have candidates : Cold.isCandidate r' = Cold.isCandidate r := by
    funext signal cyclic n
    rw [Cold.isCandidate, Cold.isCandidate, renamed.implementation, map_bind]
    rfl
  have fuse : fuseNode ⟨g, r', s⟩ = fuseNode ⟨g, r, s⟩ := by
    funext symbols p d id
    simp only [fuseNode, renamed.implementation, map_bind]
    rfl
  unfold partitionDsp splitGroups Cold.eligible
  simp only [candidates, fuse]

theorem synthesizeMessages_renamed : synthesizeMessages ⟨g, r, s⟩ = synthesizeMessages ⟨g, r', s⟩ := by
  have functions : receiverFunctions ⟨g, r', s⟩ = receiverFunctions ⟨g, r, s⟩ := by
    funext symbols d id inlets
    simp only [receiverFunctions, renamed.implementation, map_bind]
    rfl
  unfold synthesizeMessages makeReceivers
  simp only [functions]
  rfl

theorem finish_renamed : finish ⟨g, r, s⟩ = finish ⟨g, r', s⟩ := by
  have finalize : finalizeNode ⟨g, r', s⟩ = finalizeNode ⟨g, r, s⟩ := by
    funext id
    simp only [finalizeNode, renamed.implementation, lift_map_bind]
    rfl
  unfold finish finalizeNodeCode
  simp only [finalize]

end Draft

namespace Compilation
variable {ρ : Nat → Nat} {r : Registry} {c : Compilation}

/-- The same compilation with another registry. -/
def withRegistry (c : Compilation) (r : Registry) : Compilation := { c with registry := r }

section Passes
variable (c)

theorem startDraft_withRegistry (work : BuildInput → Build Unit) (same : ∀ g s, work ⟨g, c.registry, s⟩ = work ⟨g, r, s⟩) :
    (c.withRegistry r).startDraft work = ((c.startDraft work).1, (c.startDraft work).2.withRegistry r) := by
  unfold startDraft
  dsimp only [withRegistry]
  cases need "trimmed graph" c.trimmed with
  | error => rfl
  | ok g =>
    cases need "traversal" c.traversal with
    | error => rfl
    | ok full =>
      cases start : Draft.start g full with
      | error => simp only [bind, Except.bind, start]
      | ok d =>
        cases need "settings" c.settings with
        | error => simp only [bind, Except.bind, start]
        | ok s =>
          cases need "names" c.symbols with
          | error => simp only [bind, Except.bind, start]
          | ok symbols =>
            simp only [bind, Except.bind, pure, Except.pure, start, same]
            rcases (work ⟨g, r, s⟩).run.run ⟨symbols, d⟩ with ⟨_ | _, _⟩ <;> rfl

theorem continueDraft_withRegistry {α : Type} (work : BuildInput → Build α)
    (same : ∀ g s, work ⟨g, c.registry, s⟩ = work ⟨g, r, s⟩) :
    (c.withRegistry r).continueDraft work = ((c.continueDraft work).1, (c.continueDraft work).2.withRegistry r) := by
  rcases c with ⟨_, _, _, _ | s, _, _ | g, _ | symbols, _ | d, _, _, _⟩
  case some.some.some.some =>
    rw [continueDraft_eq work rfl rfl rfl rfl, continueDraft_eq work rfl rfl rfl rfl, same]
    rfl
  all_goals rfl

theorem validateSettings_withRegistry :
    (c.withRegistry r).validateSettings = c.validateSettings.map (fun c => c.withRegistry r) := by
  unfold validateSettings
  dsimp only [withRegistry]
  cases c.request.validate with
  | error => rfl
  | ok s => cases checked : s.checkPortlets c.graph <;> simp only [bind, Except.bind, checked] <;> rfl

theorem buildTraversal_withRegistry :
    (c.withRegistry r).buildTraversal = c.buildTraversal.map (fun c => c.withRegistry r) := by
  unfold buildTraversal
  dsimp only [withRegistry]
  cases need "settings" c.settings with
  | error => rfl
  | ok s =>
    simp only [bind, Except.bind]
    split <;> rfl

theorem allocateNames_withRegistry :
    (c.withRegistry r).allocateNames = c.allocateNames.map (fun c => c.withRegistry r) := by
  unfold allocateNames
  dsimp only [withRegistry]
  cases need "settings" c.settings with
  | error => rfl
  | ok s =>
    cases need "trimmed graph" c.trimmed with
    | error => rfl
    | ok g =>
      simp only [bind, Except.bind]
      split <;> rfl

theorem assemble_withRegistry : (c.withRegistry r).assemble = c.assemble.map (fun c => c.withRegistry r) := by
  unfold assemble
  dsimp only [withRegistry]
  cases need "precompiled code" c.draft with
  | error => rfl
  | ok d =>
    cases need "names" c.symbols with
    | error => rfl
    | ok symbols =>
      simp only [bind, Except.bind]
      split <;> rfl

end Passes

/-- A pass makes the same with other identities. -/
theorem runPass_withRegistry (renamed : c.registry.Renamed ρ r) (pass : Pass) :
    (c.withRegistry r).runPass pass = ((c.runPass pass).1, (c.runPass pass).2.withRegistry r) := by
  have atomic (next : Except CompileError Compilation) : (c.withRegistry r).atomic (next.map (fun c => c.withRegistry r)) =
      ((c.atomic next).1, (c.atomic next).2.withRegistry r) := by
    cases next <;> rfl
  cases pass with
  | validateSettings => rw [runPass, validateSettings_withRegistry, atomic, runPass]
  | buildTraversal => rw [runPass, buildTraversal_withRegistry, atomic, runPass]
  | allocateNames => rw [runPass, allocateNames_withRegistry, atomic, runPass]
  | resolvePortlets => exact c.startDraft_withRegistry Draft.resolvePortlets (fun _ _ => rfl)
  | collectDependencies =>
    exact c.continueDraft_withRegistry Draft.collectDependencies (Draft.collectDependencies_renamed renamed)
  | partitionDsp => exact c.continueDraft_withRegistry Draft.partitionDsp (Draft.partitionDsp_renamed renamed)
  | synthesizeMessages => exact c.continueDraft_withRegistry Draft.synthesizeMessages (Draft.synthesizeMessages_renamed renamed)
  | generateNodeCode =>
    simp only [runPass, c.continueDraft_withRegistry Draft.finish (Draft.finish_renamed renamed)]
    rcases c.continueDraft Draft.finish with ⟨_ | _, _⟩ <;> rfl
  | assemble => rw [runPass, assemble_withRegistry, atomic, runPass]

theorem registry_runPass (c : Compilation) (pass : Pass) : (c.runPass pass).2.registry = c.registry := by
  show (c.runPass pass).2.fresh.registry = c.fresh.registry
  rw [(Effect.runPass c pass).inputs]

theorem runPasses_withRegistry (renamed : c.registry.Renamed ρ r) (passes : List Pass) :
    (c.withRegistry r).runPasses passes = ((c.runPasses passes).1, (c.runPasses passes).2.withRegistry r) := by
  induction passes generalizing c with
  | nil => rfl
  | cons pass rest ih =>
    have kept := c.registry_runPass pass
    simp only [runPasses, runPass_withRegistry renamed pass]
    rcases ran : c.runPass pass with ⟨_ | _, next⟩
    · rfl
    · rw [ran] at kept
      simp only [ih (kept ▸ renamed)]

end Compilation

/-- A compilation does not see identities. -/
theorem compile_eq_of_renamed {ρ : Nat → Nat} {r r' : Registry} (renamed : r.Renamed ρ r') (g : Graph) (request : SettingsRequest) :
    compile g r request = compile g r' request := by
  have provenance : Provenance.of g r = Provenance.of g r' := by
    rw [Provenance.of, Provenance.of, renamed.text]
  have run : Compilation.run { graph := g, registry := r', request } .assemble =
      ((Compilation.run { graph := g, registry := r, request } .assemble).1,
       (Compilation.run { graph := g, registry := r, request } .assemble).2.withRegistry r') := by
    unfold Compilation.run
    rw [← provenance]
    exact Compilation.runPasses_withRegistry (c := { graph := g, registry := r, request, provenance := some (.of g r) })
      renamed Pass.assemble.required
  unfold compile
  rw [run]
  rcases Compilation.run { graph := g, registry := r, request } .assemble with ⟨⟨_, _ | _⟩, _⟩ <;> rfl

end DspPatch
