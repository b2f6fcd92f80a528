import DspPatch.Proofs.Draft.Substitution

/-!
Fusion writes what recursive substitution defines. After the nodes `done` every inlet expression is the sum of the terms
of its sources, where the nodes in `done` have the terms that recursive substitution gives them and all others have their
variables. Inlining one more node puts its term into the place of its variable in the inlets of its sink, and nowhere else
could that variable stand: not in another inlet, because the node has no other sink, and not in a term that was put in
before, because the variables of inlined nodes are not mentioned there.
-/
namespace DspPatch.Draft
open Build Text
variable {input : BuildInput} {symbols : Symbols} {order inlined done : List String} {p : Partition} {d d' : Draft}
  {id : String} {m : NodeDraft}

theorem get?_resolveLoop {loop : Option Sequence} {v : String} {m' : NodeDraft}
    (stored : (d.resolveLoop id loop).nodes.get? v = some m') :
    ∃ m, d.nodes.get? v = some m ∧ m' = if v = id then { m with loop := loop, loopResolved := true } else m := by
  rw [resolveLoop, modifyNode, Table.get?_modify] at stored
  by_cases same : v = id
  · rw [if_pos same, Option.map_eq_some_iff] at stored
    obtain ⟨m, before, rfl⟩ := stored
    exact ⟨m, before, by rw [if_pos same]⟩
  · rw [if_neg same] at stored
    exact ⟨m', stored, by rw [if_neg same]⟩

/-- A node after one was inlined: its sink has new inlet expressions, and only the node itself is changed otherwise. -/
theorem get?_inlineInto {target symbol text v : String} {m' : NodeDraft}
    (stored : (d.inlineInto id target symbol text).nodes.get? v = some m') :
    ∃ m, d.nodes.get? v = some m ∧
      m'.signalIns = (if v = target then m.signalIns.map (fun old => replaceName old symbol ("(" ++ text ++ ")"))
        else m.signalIns) ∧
      (v = id → m'.inlined = true) ∧
      (v ≠ id → m'.inlined = m.inlined ∧ m'.signalOuts = m.signalOuts ∧ m'.loop = m.loop) := by
  simp only [inlineInto, modifyNode, Table.get?_modify] at stored
  by_cases isTarget : v = target
  · by_cases same : v = id
    · simp only [if_pos isTarget, if_pos same, Option.map_map, Option.map_eq_some_iff] at stored
      obtain ⟨m, before, rfl⟩ := stored
      exact ⟨m, before, by rw [if_pos isTarget]; rfl, fun _ => rfl, fun away => absurd same away⟩
    · simp only [if_pos isTarget, if_neg same, Option.map_eq_some_iff] at stored
      obtain ⟨m, before, rfl⟩ := stored
      exact ⟨m, before, by rw [if_pos isTarget], fun own => absurd own same, fun _ => ⟨rfl, rfl, rfl⟩⟩
  · by_cases same : v = id
    · simp only [if_neg isTarget, if_pos same, Option.map_eq_some_iff] at stored
      obtain ⟨m, before, rfl⟩ := stored
      exact ⟨m, before, by rw [if_neg isTarget], fun _ => rfl, fun away => absurd same away⟩
    · simp only [if_neg isTarget, if_neg same] at stored
      exact ⟨m', stored, by rw [if_neg isTarget], fun own => absurd own same, fun _ => ⟨rfl, rfl, rfl⟩⟩

/-- Of the other nodes a step changes nothing but inlet expressions. -/
theorem FuseStep.other (step : FuseStep input symbols p d id m d') {v : String} (away : v ≠ id) {m' : NodeDraft}
    (stored : d'.nodes.get? v = some m') :
    ∃ m, d.nodes.get? v = some m ∧ m'.inlined = m.inlined ∧ m'.signalOuts = m.signalOuts ∧ m'.loop = m.loop := by
  cases step with
  | plain => exact ⟨m', stored, rfl, rfl, rfl⟩
  | inlined =>
    obtain ⟨m, before, _, _, frame⟩ := get?_inlineInto stored
    exact ⟨m, before, frame away⟩
  | assigned =>
    obtain ⟨m, before, rfl⟩ := get?_resolveLoop stored
    rw [if_neg away]
    exact ⟨m, before, rfl, rfl, rfl⟩

/-- The term of an outlet when the nodes `done` have been fused. -/
def termAfter (input : BuildInput) (symbols : Symbols) (inlined done : List String) (e : Endpoint) : String :=
  if e.node ∈ done then term input symbols inlined e else outletSymbol symbols e

/-- The loop code of a node that is not inlined, if it is an expression for one variable. -/
def LoopAssigned (input : BuildInput) (symbols : Symbols) (inlined : List String) (v : String) (m : NodeDraft) : Prop :=
  IsInline input v → ∀ n o text, input.graph.get? v = some n → n.outletsOf .signal = [o] →
    loopExpression? input symbols v (inletTexts input symbols inlined v) = some text →
    m.loop = some (.ofCode (outletSymbol symbols ⟨v, o.id⟩ ++ " = " ++ text))

/-- The draft when the nodes `done` have been fused. -/
structure FusedText (input : BuildInput) (symbols : Symbols) (inlined done : List String) (d : Draft) : Prop where
  inlets : ∀ v m, d.nodes.get? v = some m → m.signalIns.entries =
    (textual input symbols).inletValues input.graph (termAfter input symbols inlined done) v
  pending : ∀ v m, v ∉ done → d.nodes.get? v = some m → m.inlined = false ∧ ∃ n, input.graph.get? v = some n ∧
    m.signalOuts.entries = (n.outletsOf .signal).map (fun o => (o.id, outletSymbol symbols ⟨v, o.id⟩))
  assigned : ∀ v ∈ done, v ∉ inlined → ∀ m, d.nodes.get? v = some m → LoopAssigned input symbols inlined v m
  made : ∀ u ∈ done, u ∈ inlined →
    ∃ text, loopExpression? input symbols u (inletTexts input symbols inlined u) = some text

/-- Once its inlined sources have been fused, the inlets of a node are as recursive substitution defines them. -/
theorem inletValues_termAfter (wf : input.graph.WellFormed) {v : String}
    (earlier : ∀ u ∈ inlined, input.graph.Feeds .signal u v → u ∈ done) :
    (textual input symbols).inletValues input.graph (termAfter input symbols inlined done) v =
      inletTexts input symbols inlined v := by
  refine Interpretation.inletValues_congr wf (fun e feeds => ?_)
  by_cases passed : e.node ∈ done
  · exact if_pos passed
  · have kept : e.node ∉ inlined := fun own => passed (earlier e.node own feeds)
    exact (if_neg passed).trans (term_of_not_inlined kept).symm

/-- A node that is not inlined keeps its variables as terms. -/
theorem termAfter_of_not_inlined (kept : id ∉ inlined) :
    termAfter input symbols inlined (done ++ [id]) = termAfter input symbols inlined done := by
  funext e
  simp only [termAfter, List.mem_append, List.mem_singleton]
  by_cases passed : e.node ∈ done
  · rw [if_pos (.inl passed), if_pos passed]
  · by_cases same : e.node = id
    · rw [if_pos (.inr same), if_neg passed, term_of_not_inlined (same ▸ kept)]
    · rw [if_neg (not_or.mpr ⟨passed, same⟩), if_neg passed]

/-- Inlining a node turns its variable into its term and leaves all other terms alone. -/
theorem Substitutable.replaceName_termAfter (substitutable : Substitutable input symbols order inlined)
    (own : id ∈ inlined) (fresh : id ∉ done) {o symbol text : String}
    (given : symbols.at? (.portlet .outs id o) = some symbol)
    (made : loopExpression? input symbols id (inletTexts input symbols inlined id) = some text) {e : Endpoint}
    (outlet : e.node = id → e.portlet = o) :
    replaceName (termAfter input symbols inlined done e) symbol ("(" ++ text ++ ")") =
      termAfter input symbols inlined (done ++ [id]) e := by
  obtain ⟨named, _⟩ := substitutable.named id o symbol given
  simp only [termAfter, List.mem_append, List.mem_singleton]
  by_cases same : e.node = id
  · have isOutlet : e = ⟨id, o⟩ := by
      rw [← same, ← outlet same]
    have letters := (isNamePart_iff.mp named).2
    rw [if_neg (same ▸ fresh), if_pos (.inr same), term_of_inlined substitutable.fits (same ▸ own), same, made, isOutlet,
      outletSymbol, given, Option.getD_some, replaceName_of_letters named letters, if_pos rfl]
    rfl
  · by_cases passed : e.node ∈ done
    · rw [if_pos passed, if_pos (.inl passed)]
      exact replaceName_of_not_mentions named (substitutable.not_mentions_term own given e)
    · rw [if_neg passed, if_neg (not_or.mpr ⟨passed, same⟩)]
      refine replaceName_of_not_mentions named (fun mentions => same ?_)
      rw [(substitutable.mentions_outletSymbol_iff given e).mp mentions]

/-- Replacing a name at the inlets of a node replaces it in the terms. -/
theorem map_replaceName_inletValues {symbol replacement : String} (named : isNamePart symbol = true)
    (isVariable : symbol ≠ Engine.nullSignal) (read : Endpoint → String) (v : String) :
    ((textual input symbols).inletValues input.graph read v).map
        (fun entry => (entry.1, replaceName entry.2 symbol replacement)) =
      (textual input symbols).inletValues input.graph (fun e => replaceName (read e) symbol replacement) v := by
  unfold Interpretation.inletValues
  cases input.graph.get? v with
  | none => rfl
  | some n =>
    simp only [List.map_map]
    refine List.map_congr_left (fun i _ => ?_)
    show (i.id, replaceName (sumExpression ((n.sourcesOf i.id).map read)) symbol replacement) = (i.id, sumExpression _)
    rw [replaceName_sumExpression named isVariable, List.map_map]
    rfl

/-- All connections from a node with one outlet start there. -/
theorem portlet_of_single (wf : input.graph.WellFormed) {n : Node} (found : input.graph.get? id = some n) {o : Portlet}
    (single : n.outletsOf .signal = [o]) {e : Endpoint} {v inlet : String}
    (connects : input.graph.Connects .signal ⟨e, ⟨v, inlet⟩⟩) (same : e.node = id) : e.portlet = o.id := by
  obtain ⟨k, q, kFound, declared, kind, _⟩ := connects
  rw [same] at kFound
  cases found.symm.trans kFound
  have isOutlet : q.id = e.portlet := wf.outletId found declared
  have listed : q ∈ n.outletsOf .signal := (Graph.mem_outletsOf_iff wf found).mpr ⟨isOutlet.symm ▸ declared, kind⟩
  rw [single, List.mem_singleton] at listed
  rw [← isOutlet, listed]

/-- When a node is inlined, its variable is replaced at the inlets of its sink; any other node does not read it. -/
theorem Substitutable.inletValues_inlined (substitutable : Substitutable input symbols order inlined)
    (own : id ∈ inlined) (fresh : id ∉ done) {n : Node} (found : input.graph.get? id = some n) {target : String}
    (fits : fusionTarget? input.graph p id ((n.outletsOf .signal).map Portlet.id) = some target) {o : Portlet}
    (single : n.outletsOf .signal = [o]) {symbol text : String}
    (given : symbols.at? (.portlet .outs id o.id) = some symbol)
    (made : loopExpression? input symbols id (inletTexts input symbols inlined id) = some text) (v : String) :
    (textual input symbols).inletValues input.graph (termAfter input symbols inlined (done ++ [id])) v =
      if v = target then ((textual input symbols).inletValues input.graph (termAfter input symbols inlined done) v).map
        (fun entry => (entry.1, replaceName entry.2 symbol ("(" ++ text ++ ")")))
      else (textual input symbols).inletValues input.graph (termAfter input symbols inlined done) v := by
  have wf := substitutable.fits.wf
  obtain ⟨named, isVariable⟩ := substitutable.named id o.id symbol given
  by_cases isTarget : v = target
  · rw [if_pos isTarget, map_replaceName_inletValues named isVariable]
    refine Interpretation.inletValues_congr_connected wf (fun e inlet connects => ?_)
    refine (substitutable.replaceName_termAfter own fresh given made (fun same => ?_)).symm
    exact portlet_of_single wf found single connects same
  · rw [if_neg isTarget]
    refine Interpretation.inletValues_congr wf (fun e feeds => ?_)
    have away : e.node ≠ id := by
      rintro rfl
      exact isTarget (((fusible_of_fusionTarget? fits).feeds_iff wf found v).mp feeds)
    simp only [termAfter, List.mem_append, List.mem_singleton, away, or_false]

namespace FusedText
variable (fusedText : FusedText input symbols inlined done d) (fresh : id ∉ done) (stored : d.nodes.get? id = some m)
  (step : FuseStep input symbols p d id m d')
include fusedText fresh stored step

/-- The inlet expressions after a step. -/
theorem inlets_step (substitutable : Substitutable input symbols order inlined)
    (own : m.signalIns.entries = inletTexts input symbols inlined id)
    (fate : ∀ m', d'.nodes.get? id = some m' → (m'.inlined = true ↔ id ∈ inlined)) (v : String) (m' : NodeDraft)
    (stored' : d'.nodes.get? v = some m') : m'.signalIns.entries =
      (textual input symbols).inletValues input.graph (termAfter input symbols inlined (done ++ [id])) v := by
  obtain ⟨notYet, n, found, outs⟩ := fusedText.pending id m fresh stored
  obtain ⟨after, storedAfter, _⟩ := (step.fusedFrom stored).nodes id m stored
  have decided := fate after storedAfter
  cases step with
  | plain =>
    cases stored.symm.trans storedAfter
    rw [termAfter_of_not_inlined (by simp [← decided, notYet])]
    exact fusedText.inlets v m' stored'
  | assigned =>
    obtain ⟨before, storedBefore, rfl⟩ := get?_resolveLoop storedAfter
    cases stored.symm.trans storedBefore
    obtain ⟨k, kStored, rfl⟩ := get?_resolveLoop stored'
    rw [termAfter_of_not_inlined (by simp [← decided, notYet]), ← fusedText.inlets v k kStored]
    by_cases same : v = id
    · rw [if_pos same]
    · rw [if_neg same]
  | @inlined target symbol text _ made fits first =>
    have member : id ∈ inlined := by
      obtain ⟨_, _, _, isInlined, _⟩ := get?_inlineInto storedAfter
      exact decided.mp (isInlined rfl)
    have keys : m.signalOuts.keys = (n.outletsOf .signal).map Portlet.id := by
      rw [Table.keys, outs, List.map_map]
      rfl
    rw [keys] at fits
    obtain ⟨_, _, _, _, single, _⟩ := fusible_of_fusionTarget? fits
    obtain ⟨o, only, _⟩ := List.map_eq_singleton_iff.mp single
    have given : symbols.at? (.portlet .outs id o.id) = some symbol := by
      obtain ⟨stored, isGiven⟩ := Option.ne_none_iff_exists'.mp (substitutable.given id n found o (by simp [only]))
      rw [Table.values, outs, only] at first
      have isFirst : outletSymbol symbols ⟨id, o.id⟩ = symbol := Option.some.inj first
      rw [← isFirst, outletSymbol, isGiven]
      rfl
    obtain ⟨k, kStored, ins, _⟩ := get?_inlineInto stored'
    rw [ins, substitutable.inletValues_inlined member fresh found fits only given (own ▸ made),
      ← fusedText.inlets v k kStored]
    by_cases isTarget : v = target
    · rw [if_pos isTarget, if_pos isTarget]
      rfl
    · rw [if_neg isTarget, if_neg isTarget]

/-- The loop code of a node after its own step. -/
theorem assigned_step (own : m.signalIns.entries = inletTexts input symbols inlined id) {m' : NodeDraft}
    (stored' : d'.nodes.get? id = some m') (kept : m'.inlined = false) : LoopAssigned input symbols inlined id m' := by
  obtain ⟨_, n, found, outs⟩ := fusedText.pending id m fresh stored
  intro inline n' o text found' single made
  cases found.symm.trans found'
  cases step with
  | plain plain => exact absurd inline plain
  | inlined =>
    obtain ⟨_, _, _, isInlined, _⟩ := get?_inlineInto stored'
    exact absurd (kept.symm.trans (isInlined rfl)) Bool.false_ne_true
  | assigned _ code =>
    obtain ⟨before, storedBefore, rfl⟩ := get?_resolveLoop stored'
    rw [if_pos rfl]
    refine code text _ (own ▸ made) ?_
    rw [Table.values, outs, single]
    rfl

/-- A node that gets inlined has a loop expression. -/
theorem made_step (own : m.signalIns.entries = inletTexts input symbols inlined id) {m' : NodeDraft}
    (stored' : d'.nodes.get? id = some m') (inlines : m'.inlined = true) :
    ∃ text, loopExpression? input symbols id (inletTexts input symbols inlined id) = some text := by
  obtain ⟨notYet, _⟩ := fusedText.pending id m fresh stored
  cases step with
  | inlined _ made => exact ⟨_, own ▸ made⟩
  | plain =>
    cases stored.symm.trans stored'
    exact absurd (notYet.symm.trans inlines) Bool.false_ne_true
  | assigned =>
    obtain ⟨before, storedBefore, rfl⟩ := get?_resolveLoop stored'
    cases stored.symm.trans storedBefore
    rw [if_pos rfl] at inlines
    exact absurd (notYet.symm.trans inlines) Bool.false_ne_true

/-- One step of fusion. -/
theorem fuse (substitutable : Substitutable input symbols order inlined)
    (earlier : ∀ u ∈ inlined, input.graph.Feeds .signal u id → u ∈ done)
    (fate : ∀ m', d'.nodes.get? id = some m' → (m'.inlined = true ↔ id ∈ inlined)) :
    FusedText input symbols inlined (done ++ [id]) d' := by
  have own : m.signalIns.entries = inletTexts input symbols inlined id :=
    (fusedText.inlets id m stored).trans (inletValues_termAfter substitutable.fits.wf earlier)
  have before : ∀ {v}, v ∈ done ++ [id] → v ≠ id → v ∈ done := fun passed different =>
    (List.mem_append.mp passed).resolve_right (fun last => different (List.mem_singleton.mp last))
  refine ⟨fusedText.inlets_step fresh stored step substitutable own fate, fun v m' ahead stored' => ?_,
    fun v passed kept m' stored' => ?_, fun u passed inner => ?_⟩
  · rw [List.mem_append, List.mem_singleton, not_or] at ahead
    obtain ⟨k, kStored, sameInlined, sameOuts, _⟩ := step.other ahead.2 stored'
    rw [sameInlined, sameOuts]
    exact fusedText.pending v k ahead.1 kStored
  · by_cases same : v = id
    · subst same
      refine fusedText.assigned_step fresh stored step own stored' ?_
      simpa [← fate m' stored'] using kept
    · obtain ⟨k, kStored, _, _, sameLoop⟩ := step.other same stored'
      intro inline n o text found single made
      rw [sameLoop]
      exact fusedText.assigned v (before passed same) kept k kStored inline n o text found single made
  · by_cases same : u = id
    · subst same
      obtain ⟨m', stored', _⟩ := (step.fusedFrom stored).nodes u m stored
      exact fusedText.made_step fresh stored step own stored' ((fate m' stored').mpr inner)
    · exact fusedText.made u (before passed same) inner

end FusedText

/-- Nodes fused one after the other. -/
inductive FuseRun (input : BuildInput) (symbols : Symbols) (p : Partition) : Draft → List String → Draft → Prop where
  | nil (d : Draft) : FuseRun input symbols p d [] d
  | cons {d next last : Draft} {id : String} {m : NodeDraft} {rest : List String} (stored : d.nodes.get? id = some m)
      (step : FuseStep input symbols p d id m next) (run : FuseRun input symbols p next rest last) :
      FuseRun input symbols p d (id :: rest) last

theorem fuseRun_of_foldlM {ids : List String}
    (present : ∀ id ∈ ids, id ∈ d.nodes.keys ∧ ∃ n, input.graph.get? id = some n)
    (folded : ids.foldlM (fuseNode input symbols p) d = .ok d') : FuseRun input symbols p d ids d' := by
  induction ids generalizing d with
  | nil =>
    cases folded
    exact .nil _
  | cons id rest ih =>
    rw [List.foldlM_cons] at folded
    obtain ⟨next, ran, folded⟩ := bind_eq_ok_iff.mp folded
    obtain ⟨⟨known, n, found⟩, present⟩ := List.forall_mem_cons.mp present
    obtain ⟨m, stored⟩ := Table.mem_keys_iff.mp known
    have step := (fuseNode_yields found stored symbols p).of_eq_ok ran
    refine .cons stored step (ih ?_ folded)
    rw [(step.fusedFrom stored).keys]
    exact present

/-- Nodes that are not fused are inlined afterwards if they were before. -/
theorem FuseRun.other {ids : List String} (run : FuseRun input symbols p d ids d') {v : String} (away : v ∉ ids)
    {m : NodeDraft} (stored : d.nodes.get? v = some m) : ∃ m', d'.nodes.get? v = some m' ∧ m'.inlined = m.inlined := by
  induction run generalizing m with
  | nil => exact ⟨m, stored, rfl⟩
  | cons own step _ ih =>
    rw [List.mem_cons, not_or] at away
    obtain ⟨next, storedNext, _⟩ := (step.fusedFrom own).nodes v m stored
    obtain ⟨_, before, sameNext, _⟩ := step.other away.1 storedNext
    cases stored.symm.trans before
    obtain ⟨last, storedLast, sameLast⟩ := ih away.2 storedNext
    exact ⟨last, storedLast, sameLast.trans sameNext⟩

/-- Only inline nodes get inlined. -/
theorem FuseRun.isInline {ids : List String} (run : FuseRun input symbols p d ids d')
    (fresh : ∀ v m, d.nodes.get? v = some m → m.inlined = true → IsInline input v) :
    ∀ v m, d'.nodes.get? v = some m → m.inlined = true → IsInline input v := by
  induction run with
  | nil => exact fresh
  | @cons d next last id m rest stored step _ ih =>
    refine ih (fun v m' stored' inlined => ?_)
    by_cases same : v = id
    · subst same
      cases step with
      | plain => exact fresh v m' stored' inlined
      | inlined inline => exact inline
      | assigned inline => exact inline
    · obtain ⟨before, storedBefore, sameInlined, _⟩ := step.other same stored'
      exact fresh v before storedBefore (sameInlined ▸ inlined)

/-- Fusing all nodes leads to the texts of recursive substitution. -/
theorem FuseRun.fusedText (substitutable : Substitutable input symbols order inlined) {rest : List String}
    (run : FuseRun input symbols p d rest d') (whole : done ++ rest = order)
    (fusedText : FusedText input symbols inlined done d)
    (fate : ∀ v m, d'.nodes.get? v = some m → (m.inlined = true ↔ v ∈ inlined)) :
    FusedText input symbols inlined order d' := by
  induction run generalizing done with
  | nil =>
    rw [List.append_nil] at whole
    exact whole ▸ fusedText
  | @cons d next last id m rest stored step run ih =>
    have nodup : (done ++ id :: rest).Nodup := whole ▸ substitutable.fits.ordered.nodup
    have fresh : id ∉ done := fun member => (List.nodup_append.mp nodup).2.2 id member id List.mem_cons_self rfl
    have ahead : id ∉ rest := (List.nodup_cons.mp (List.nodup_append.mp nodup).2.1).1
    refine ih ?_ (fusedText.fuse fresh stored step substitutable (fun u own feeds => ?_) (fun m' stored' => ?_)) fate
    · rw [List.append_assoc, List.singleton_append, whole]
    · exact mem_before_of_pair_sublist nodup (whole ▸ substitutable.fits.before own feeds)
    · -- Later steps do not touch the node, so it is decided now whether it is inlined.
      obtain ⟨final, storedFinal, same⟩ := run.other ahead stored'
      rw [← same]
      exact fate id final storedFinal

end DspPatch.Draft
