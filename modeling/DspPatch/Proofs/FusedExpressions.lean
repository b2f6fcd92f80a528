import DspPatch.Proofs.Draft.FusedText

/-!
The expressions after fusion. Whenever the passes up to the partition succeed, the inlet expressions of the draft are those
that recursive substitution defines, although fusion gets there by replacing names in text, one node after the other.
-/
namespace DspPatch.Draft
open Build Text
variable {g : Graph} {r : Registry} {s : Settings} {full : List String} {input : BuildInput} {symbols : Symbols}
  {inlined : List String} {w : Workspace}

/-- Before the first node is fused, every term is a variable. -/
theorem Prepared.fusedText {stage : Stage} (prepared : Prepared input full stage w) (wf : input.graph.WellFormed)
    (grows : w.symbols.Grows symbols) (p : Partition) :
    FusedText input symbols inlined [] { w.draft with partition := p } := by
  have isSymbol : ∀ {e : Endpoint} {symbol}, w.symbols.at? (.portlet .outs e.node e.portlet) = some symbol →
      outletSymbol symbols e = symbol := by
    intro e symbol given
    rw [outletSymbol, grows.kept given]
    rfl
  refine ⟨fun v m stored => ?_, fun v m _ stored => ?_, fun v passed => absurd passed List.not_mem_nil,
    fun u passed => absurd passed List.not_mem_nil⟩
  · obtain ⟨n, found, _, ready⟩ := prepared.nodes v m stored
    rw [Interpretation.inletValues, found]
    refine Table.entries_eq_map (ready.ins (Graph.nodup_inletsOf wf found .signal)) (fun i inlet => ?_)
    obtain ⟨expression, written, terms, rfl, related⟩ := ready.expressions i inlet
    have sources : terms.map id = (n.sourcesOf i.id).map (outletSymbol symbols) :=
      (map_eq_map_of_forall₂ _ _ (related.imp (fun _ _ given => isSymbol given))).symm
    rw [List.map_id] at sources
    rw [written, sources]
    rfl
  · obtain ⟨n, found, _, ready⟩ := prepared.nodes v m stored
    refine ⟨ready.inlined, n, found, ?_⟩
    refine Table.entries_eq_map (ready.outs (Graph.nodup_outletsOf wf found .signal)) (fun o outlet => ?_)
    obtain ⟨symbol, written, given⟩ := ready.symbols o outlet
    rw [written, isSymbol (e := ⟨v, o.id⟩) given]

/-- The passes up to the partition succeed on a fresh draft with fresh symbols of the trimmed graph. -/
structure NamedRun (g : Graph) (r : Registry) (s : Settings) (full : List String) (collected partitioned : Workspace) :
    Prop where
  traversal : g.fullTraversal s.inletCallers.keys = .ok full
  prepared : ∃ symbols draft, Symbols.ofGraph (g.trim full) s.debug = .ok symbols ∧
    Draft.start (g.trim full) full = .ok draft ∧
    (do resolvePortlets ⟨g.trim full, r, s⟩; collectDependencies ⟨g.trim full, r, s⟩ : Build Unit).run.run
      ⟨symbols, draft⟩ = (.ok (), collected)
  partition : (partitionDsp ⟨g.trim full, r, s⟩).run.run collected = (.ok (), partitioned)

theorem NamedRun.partitionRun {collected partitioned : Workspace} (ran : NamedRun g r s full collected partitioned) :
    PartitionRun g r s full collected partitioned := by
  obtain ⟨symbols, draft, _, start, collect⟩ := ran.prepared
  exact ⟨ran.traversal, ⟨symbols, draft, start, collect⟩, ran.partition⟩

/-- The texts of a draft are those of recursive substitution. -/
structure SubstitutedTexts (input : BuildInput) (symbols : Symbols) (inlined : List String) (d : Draft) : Prop where
  /-- The recursion from a node to its inlined sources ends. -/
  wellFounded : WellFounded (fun u v => u ∈ inlined ∧ input.graph.Feeds .signal u v)
  /-- Inlined nodes have loop expressions. -/
  expressions : ∀ u ∈ inlined, ∃ text, loopExpression? input symbols u (inletTexts input symbols inlined u) = some text
  equations : Substitutes input symbols inlined (term input symbols inlined) (inletTexts input symbols inlined)
  unique : ∀ other inlets, Substitutes input symbols inlined other inlets →
    ∀ v n, input.graph.get? v = some n → inlets v = inletTexts input symbols inlined v
  drafted : ∀ v n, input.graph.get? v = some n → ∃ m, d.nodes.get? v = some m
  inlets : ∀ v m, d.nodes.get? v = some m → m.signalIns.entries = inletTexts input symbols inlined v
  /-- Inline nodes that are not inlined assign their expression. -/
  loops : ∀ v m, input.graph.Pulled v → v ∉ inlined → d.nodes.get? v = some m → LoopAssigned input symbols inlined v m
  /-- The variables of inlined nodes are gone. -/
  unmentioned : ∀ v m, d.nodes.get? v = some m → ∀ entry ∈ m.signalIns.entries, ∀ u ∈ inlined, ∀ o symbol,
    symbols.at? (.portlet .outs u o) = some symbol → ¬Mentions entry.2 symbol

/-- What a run up to the partition is made of: a prepared draft, and nodes that are fused in the order in which they
    run. -/
structure FusionOf (input : BuildInput) (full order : List String) (collected partitioned : Workspace) (fused : Draft)
    (p : Partition) : Prop where
  prepared : Prepared input full .dependenciesCollected collected
  complete : ∀ id n, input.graph.get? id = some n → id ∈ full
  fits : input.graph.Inlinable order partitioned.draft.inlinedIds
  run : FuseRun input partitioned.symbols p { collected.draft with partition := p } order fused
  result : partitioned.draft = fused.dropInlined.atStage .dspPartitioned
  keys : partitioned.draft.nodes.keys = collected.draft.nodes.keys
  grows : collected.symbols.Grows partitioned.symbols
  named : ∀ u o symbol, partitioned.symbols.at? (.portlet .outs u o) = some symbol →
    isNamePart symbol = true ∧ symbol ≠ Engine.nullSignal

theorem NamedRun.exists_fusion {collected partitioned : Workspace} (wf : g.WellFormed)
    (ran : NamedRun g r s full collected partitioned) :
    ∃ order p fused, FusionOf ⟨g.trim full, r, s⟩ full order collected partitioned fused p := by
  obtain ⟨runnable, _, signal, _, _, firsts, walk, walked, _, done⟩ := ran.partitionRun.partitioned wf
  obtain ⟨initial, draft, allocated, start, collect⟩ := ran.prepared
  have started := (start_yields _ _).of_eq_ok start
  obtain ⟨prepared, grows⟩ := (prepare_ends runnable.wf.keyed started).of_run collect
  obtain ⟨_, p, _, walk', _, divided, ⟨fused, folded, result⟩, _⟩ := (partitionDsp_ends prepared).of_run ran.partition
  cases walk.symm.trans walk'
  refine ⟨full.filter (fun id => signal.contains id), p, fused, prepared, fun id n found => ?_, ?_, ?_, result,
    divided.keys, divided.grows, fun u o symbol given => ?_⟩
  · exact (runnable.complete id).mpr ⟨n, found⟩
  · exact done.inlinable runnable.wf (runnable.runOrder walked)
  · refine fuseRun_of_foldlM (fun id member => ?_) folded
    have listed : id ∈ full := (List.mem_filter.mp member).1
    exact ⟨(prepared.keys id).mpr listed, prepared.present id listed⟩
  · have initially := (Symbols.ofGraph_yields (g.trim full) s.debug).of_eq_ok allocated
    exact initially.outs_named (grows.trans divided.grows) given

namespace FusionOf
variable {order : List String} {collected partitioned : Workspace} {fused : Draft} {p : Partition}
  (fusion : FusionOf input full order collected partitioned fused p)
include fusion

/-- A node at the end is as fusion has left it. -/
theorem get?_fused {v : String} {m : NodeDraft} (stored : partitioned.draft.nodes.get? v = some m) :
    ∃ k, fused.nodes.get? v = some k ∧ m = { k with stage := .dspPartitioned } := by
  rw [fusion.result, get?_atStage, dropInlined_eq, Option.map_eq_some_iff] at stored
  obtain ⟨k, before, rfl⟩ := stored
  exact ⟨k, before, rfl⟩

theorem inlined_iff {v : String} {k : NodeDraft} (stored : fused.nodes.get? v = some k) :
    k.inlined = true ↔ v ∈ partitioned.draft.inlinedIds := by
  rw [mem_inlinedIds_iff]
  constructor
  · intro isInlined
    refine ⟨{ k with stage := .dspPartitioned }, ?_, isInlined⟩
    rw [fusion.result, get?_atStage, dropInlined_eq, stored]
    rfl
  · rintro ⟨m, later, isInlined⟩
    obtain ⟨k', stored', rfl⟩ := fusion.get?_fused later
    cases stored.symm.trans stored'
    exact isInlined

theorem substitutable (distinct : OutletsDistinct partitioned.symbols)
    (clean : MentionsInletsOnly input partitioned.symbols partitioned.draft.inlinedIds) :
    Substitutable input partitioned.symbols order partitioned.draft.inlinedIds := by
  refine ⟨fusion.fits, fun u own => ?_, fun u n found o outlet => ?_, fusion.named, distinct, clean⟩
  · obtain ⟨m, stored, isInlined⟩ := mem_inlinedIds_iff.mp own
    obtain ⟨k, before, rfl⟩ := fusion.get?_fused stored
    refine fusion.run.isInline (fun v m stored inlined => ?_) u k before isInlined
    obtain ⟨_, _, _, ready⟩ := fusion.prepared.nodes v m stored
    exact absurd (ready.inlined.symm.trans inlined) Bool.false_ne_true
  · obtain ⟨_, _, named, _⟩ := fusion.prepared.node fusion.complete found
    exact fusion.grows.present (named.outs o outlet)

/-- Fusion ends with the texts of recursive substitution. -/
theorem substitutedTexts (distinct : OutletsDistinct partitioned.symbols)
    (clean : MentionsInletsOnly input partitioned.symbols partitioned.draft.inlinedIds) :
    SubstitutedTexts input partitioned.symbols partitioned.draft.inlinedIds partitioned.draft := by
  have fits := fusion.fits
  have substitutable := fusion.substitutable distinct clean
  have texts := fusion.run.fusedText substitutable (List.nil_append order)
    (fusion.prepared.fusedText fits.wf fusion.grows p) (fun v k stored => fusion.inlined_iff stored)
  have inlets : ∀ v m, partitioned.draft.nodes.get? v = some m →
      m.signalIns.entries = inletTexts input partitioned.symbols partitioned.draft.inlinedIds v := by
    intro v m stored
    obtain ⟨k, before, rfl⟩ := fusion.get?_fused stored
    exact (texts.inlets v k before).trans (inletValues_termAfter fits.wf (fun u own _ => fits.subset own))
  refine ⟨fits.wellFounded, fun u own => texts.made u (fits.subset own) own, substitutes_inletTexts fits,
    fun other texts substitutes => (substitutes.unique fits ?_).2, fun v n found => ?_, inlets,
    fun v m pulled kept stored => ?_, fun v m stored entry member u own o symbol given => ?_⟩
  · exact fun u own => fits.ordered.known u (fits.subset own)
  · apply Table.mem_keys_iff.mp
    rw [fusion.keys]
    exact (fusion.prepared.keys v).mpr (fusion.complete v n found)
  · obtain ⟨k, before, rfl⟩ := fusion.get?_fused stored
    exact texts.assigned v ((fits.ordered.mem_iff v).mpr pulled) kept k before
  · rw [inlets v m stored] at member
    exact substitutable.not_mentions_inletTexts own given member

end FusionOf

/-- Whenever the passes up to the partition succeed, fused expressions are those of recursive substitution. -/
theorem fused_eq_substituted {collected partitioned : Workspace} (accepted : g.checkIntegrity = .ok ())
    (keyed : g.PortletsKeyed) (kinds : g.KindsAgree) (ran : NamedRun g r s full collected partitioned)
    (distinct : OutletsDistinct partitioned.symbols)
    (clean : MentionsInletsOnly ⟨g.trim full, r, s⟩ partitioned.symbols partitioned.draft.inlinedIds) :
    SubstitutedTexts ⟨g.trim full, r, s⟩ partitioned.symbols partitioned.draft.inlinedIds partitioned.draft := by
  obtain ⟨_, _, _, fusion⟩ := ran.exists_fusion (Graph.wellFormed_of_checks accepted keyed kinds)
  exact fusion.substitutedTexts distinct clean

/-- An oscillator that is halved and doubled on its way to the output, where it meets an echo that is used twice. -/
def echoPatch : Graph := [
  sampleNode "osc" [] ["0"] [] [("0", [⟨"half", "0"⟩, ⟨"echo", "0"⟩])],
  sampleNode "half" ["0"] ["0"] [("0", [⟨"osc", "0"⟩])] [("0", [⟨"double", "0"⟩])],
  sampleNode "double" ["0"] ["0"] [("0", [⟨"half", "0"⟩])] [("0", [⟨"out", "0"⟩])],
  { sampleNode "echo" ["0"] ["0"] [("0", [⟨"osc", "0"⟩])] [("0", [⟨"out", "0"⟩, ⟨"out", "1"⟩])] with type := "half" },
  sampleNode "out" ["0", "1"] [] [("0", [⟨"double", "0"⟩, ⟨"echo", "0"⟩]), ("1", [⟨"echo", "0"⟩])] []].foldl
    Graph.insert .empty

def echoFull : List String := ["osc", "half", "double", "echo", "out"]

def echoInput : BuildInput := ⟨echoPatch.trim echoFull, sampleRegistry, {}⟩

/-- The fresh draft of the patch with an echo. -/
def echoStart : Workspace :=
  ⟨(Symbols.ofGraph echoInput.graph false).toOption.getD ⟨∅, ∅, ∅, .empty "", ∅, ∅⟩,
   (Draft.start echoInput.graph echoFull).toOption.getD ⟨∅, ∅, .empty, .start [], []⟩⟩

def echoCollected : Workspace :=
  ((do resolvePortlets echoInput; collectDependencies echoInput : Build Unit).run.run echoStart).2

def echoPartitioned : Workspace := ((partitionDsp echoInput).run.run echoCollected).2

theorem echoPatch_run : NamedRun echoPatch sampleRegistry {} echoFull echoCollected echoPartitioned := by
  have allocated : Symbols.ofGraph echoInput.graph false = .ok echoStart.symbols :=
    eq_ok_getD (by decide +kernel) ⟨∅, ∅, ∅, .empty "", ∅, ∅⟩
  have started : Draft.start echoInput.graph echoFull = .ok echoStart.draft :=
    eq_ok_getD (by decide +kernel) ⟨∅, ∅, .empty, .start [], []⟩
  exact ⟨by decide +kernel, ⟨echoStart.symbols, echoStart.draft, allocated, started, run_eq_of_ok (by decide +kernel)⟩,
    run_eq_of_ok (by decide +kernel)⟩

/-- What fusion finds and writes for the patch with an echo. -/
private theorem echoPatch_texts :
    echoPartitioned.draft.inlinedIds = ["half", "double"] ∧ OutletsDistinct echoPartitioned.symbols ∧
      MentionsInletsOnly echoInput echoPartitioned.symbols ["half", "double"] ∧
      inletTexts echoInput echoPartitioned.symbols ["half", "double"] "out" =
        [("0", "(((osc_OUTS_0 * 0.5) * 2) + echo_OUTS_0)"), ("1", "echo_OUTS_0")] ∧
      loopExpression? echoInput echoPartitioned.symbols "echo"
        (inletTexts echoInput echoPartitioned.symbols ["half", "double"] "echo") = some "osc_OUTS_0 * 0.5" ∧
      outletSymbol echoPartitioned.symbols ⟨"echo", "0"⟩ = "echo_OUTS_0" := by
  decide +kernel

/-- The echo feeds the output, which pulls. -/
private theorem echoPatch_pulled : echoInput.graph.Pulled "echo" ∧
    ∃ n, echoInput.graph.get? "echo" = some n ∧ n.outletsOf .signal = [⟨"0", .signal⟩] := by
  have outlets : (echoInput.graph.get? "echo").map (fun n => (n.outletsOf .signal, n.outlets.get? "0", n.sinksOf "0")) =
      some ([⟨"0", .signal⟩], some ⟨"0", .signal⟩, [⟨"out", "0"⟩, ⟨"out", "1"⟩]) := by
    decide +kernel
  have pulls : (echoInput.graph.get? "out").map Node.isPullingSignal = some true := by decide +kernel
  obtain ⟨n, found, read⟩ := Option.map_eq_some_iff.mp outlets
  obtain ⟨out, outFound, isPulling⟩ := Option.map_eq_some_iff.mp pulls
  simp only [Prod.mk.injEq] at read
  obtain ⟨single, declared, sinks⟩ := read
  have feeds : echoInput.graph.Feeds .signal "echo" "out" :=
    ⟨"0", "0", n, ⟨"0", .signal⟩, found, declared, rfl, by simp [sinks]⟩
  exact ⟨⟨"out", out, outFound, isPulling, .single feeds⟩, n, found, single⟩

/-- The oscillator stands in the output as it was halved and doubled; the echo is assigned to its variable. -/
theorem fused_eq_substituted_echo :
    NamedRun echoPatch sampleRegistry {} echoFull echoCollected echoPartitioned ∧
      echoPartitioned.draft.inlinedIds = ["half", "double"] ∧
      SubstitutedTexts echoInput echoPartitioned.symbols ["half", "double"] echoPartitioned.draft ∧
      inletTexts echoInput echoPartitioned.symbols ["half", "double"] "out" =
        [("0", "(((osc_OUTS_0 * 0.5) * 2) + echo_OUTS_0)"), ("1", "echo_OUTS_0")] ∧
      ∀ m, echoPartitioned.draft.nodes.get? "echo" = some m →
        m.loop = some (.ofCode "echo_OUTS_0 = osc_OUTS_0 * 0.5") := by
  obtain ⟨inlined, distinct, clean, sum, made, symbol⟩ := echoPatch_texts
  have texts : SubstitutedTexts echoInput echoPartitioned.symbols ["half", "double"] echoPartitioned.draft := by
    rw [← inlined] at clean ⊢
    exact fused_eq_substituted (by decide +kernel) (by decide +kernel) (by decide +kernel) echoPatch_run distinct clean
  refine ⟨echoPatch_run, inlined, texts, sum, fun m stored => ?_⟩
  have inline : IsInline echoInput "echo" := by decide +kernel
  obtain ⟨pulled, n, found, single⟩ := echoPatch_pulled
  rw [texts.loops "echo" m pulled (by decide) stored inline n ⟨"0", .signal⟩ "osc_OUTS_0 * 0.5" found single made, symbol]
  rfl

end DspPatch.Draft
