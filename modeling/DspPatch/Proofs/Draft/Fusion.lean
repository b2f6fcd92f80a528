import DspPatch.Proofs.Draft.Dependencies
import DspPatch.Proofs.Draft.Split

/-!
Fusion. A node is inlined only if its one signal outlet has one connection, which leads to a later node of its own group,
and if its output is not used outside the group. Fusing a node changes nothing but its own loop and variables and the
inlet expressions of its sink. After the partition the groups are those of the split without the inlined nodes.
-/
namespace DspPatch

/-- The group without some of its nodes; its output stays as it was. -/
def Group.without (group : Group) (ids : List String) : Group :=
  { group with traversal := group.traversal.filter (fun id => !ids.contains id) }

/-- The partition without some of its nodes. -/
def Partition.without (p : Partition) (ids : List String) : Partition :=
  { p with hot := p.hot.without ids, cold := p.cold.map (fun c => { c with group := c.group.without ids }) }

theorem Group.mem_without_iff {group : Group} {ids : List String} {v : String} :
    v ∈ (group.without ids).traversal ↔ v ∈ group.traversal ∧ v ∉ ids := by
  simp [Group.without]

theorem Partition.groups_without (p : Partition) (ids : List String) :
    (p.without ids).groups = p.groups.map (fun group => group.without ids) := by
  simp [Partition.groups, Partition.without, Function.comp_def]

/-- The members that are left keep their order. -/
theorem Partition.members_without (p : Partition) (ids : List String) :
    (p.without ids).members = p.members.filter (fun id => !ids.contains id) := by
  rw [Partition.members, Partition.groups_without, List.flatMap_map, Partition.members, List.filter_flatMap]
  rfl

namespace Draft
open Build
variable {g : Graph} {p : Partition}

/-- The sink `target` may take the expression of `id`, whose outlets with variables are `outlets`. -/
def Fusible (g : Graph) (p : Partition) (id : String) (outlets : List String) (target : String) : Prop :=
  ∃ n outlet e group, outlets = [outlet] ∧ g.get? id = some n ∧ n.sinksOf outlet = [e] ∧ e.node = target ∧
    group ∈ p.groups ∧ [id, target].Sublist group.traversal ∧ id ∉ group.outNodes

/-- A placement is a place. -/
theorem getElem?_of_placement? {id : String} {place : Placement} (found : placement? p id = some place) :
    ∃ group, p.groups[place.group]? = some group ∧ group.traversal[place.position]? = some id := by
  obtain ⟨⟨group, i⟩, listed, inside⟩ := List.mem_flatMap.mp (List.mem_of_getLast? found)
  obtain ⟨⟨member, position⟩, placed, here⟩ := List.mem_filterMap.mp inside
  dsimp only at here
  split at here
  next same =>
    cases here
    exact ⟨group, List.mem_zipIdx_iff_getElem?.mp listed, same ▸ List.mem_zipIdx_iff_getElem?.mp placed⟩
  next => cases here

theorem fusible_of_fusionTarget? {id target : String} {outlets : List String}
    (found : fusionTarget? g p id outlets = some target) : Fusible g p id outlets target := by
  unfold fusionTarget? at found
  split at found
  next outlet n node =>
    split at found
    next sink single =>
      split at found
      next own there ownPlace therePlace =>
        dsimp only at found
        split at found
        next fits =>
          cases found
          obtain ⟨sameGroup, later, unused⟩ := fits
          obtain ⟨group, groupAt, ownAt⟩ := getElem?_of_placement? ownPlace
          obtain ⟨group', groupAt', thereAt⟩ := getElem?_of_placement? therePlace
          rw [← sameGroup, groupAt] at groupAt'
          cases groupAt'
          have head : (p.groups.drop own.group).head? = some group := by rw [List.head?_drop, groupAt]
          rw [head] at unused
          exact ⟨n, outlet, sink, group, rfl, node, single, rfl, List.mem_of_getElem? groupAt,
            pair_sublist_of_getElem? ownAt thereAt later, unused⟩
        next => cases found
      next => cases found
    next => cases found
  next => cases found

/-- Only inlet expressions and loop code are changed, or the node is inlined, which it may be only if it is `fusible`. -/
def Looped (fusible : Prop) (before after : NodeDraft) : Prop :=
  ∃ ins loop resolved, ins.keys = before.signalIns.keys ∧
    (after = { before with signalIns := ins, loop := loop, loopResolved := resolved } ∨
      (fusible ∧ after = { before with
        signalIns := ins, signalOuts := ∅, inlined := true, loop := loop, loopResolved := resolved }))

/-- What fusing nodes does to a draft. -/
structure FusedFrom (g : Graph) (p : Partition) (before after : Draft) : Prop where
  only : OnlyNodes before after
  keys : after.nodes.keys = before.nodes.keys
  nodes : ∀ id m, before.nodes.get? id = some m → ∃ m', after.nodes.get? id = some m' ∧
    Looped (∃ target, Fusible g p id m.signalOuts.keys target) m m'

theorem FusedFrom.refl (d : Draft) : FusedFrom g p d d :=
  ⟨.refl d, rfl, fun _ m found => ⟨m, found, m.signalIns, m.loop, m.loopResolved, rfl, .inl rfl⟩⟩

theorem FusedFrom.trans {a b c : Draft} (first : FusedFrom g p a b) (second : FusedFrom g p b c) : FusedFrom g p a c := by
  refine ⟨first.only.trans second.only, second.keys.trans first.keys, fun id m found => ?_⟩
  obtain ⟨m', found', _, _, _, keys, rfl | ⟨fusible, rfl⟩⟩ := first.nodes id m found
  · obtain ⟨m'', found'', ins, loop, resolved, keys', rfl | ⟨fusible, rfl⟩⟩ := second.nodes id _ found'
    · exact ⟨_, found'', ins, loop, resolved, keys'.trans keys, .inl rfl⟩
    · exact ⟨_, found'', ins, loop, resolved, keys'.trans keys, .inr ⟨fusible, rfl⟩⟩
  · -- The node is inlined already, and nothing takes that back.
    obtain ⟨m'', found'', ins, loop, resolved, keys', rfl | ⟨_, rfl⟩⟩ := second.nodes id _ found'
    · exact ⟨_, found'', ins, loop, resolved, keys'.trans keys, .inr ⟨fusible, rfl⟩⟩
    · exact ⟨_, found'', ins, loop, resolved, keys'.trans keys, .inr ⟨fusible, rfl⟩⟩

theorem FusedFrom.keepsInlets {a b : Draft} (fused : FusedFrom g p a b) : KeepsInlets a b := by
  refine ⟨fused.keys, fun id m stored => ?_⟩
  obtain ⟨m', stored', _, _, _, keys, rfl | ⟨_, rfl⟩⟩ := fused.nodes id m stored
  · exact ⟨_, stored', keys⟩
  · exact ⟨_, stored', keys⟩

theorem FusedFrom.modifyNode (d : Draft) (id : String) (f : NodeDraft → NodeDraft)
    (change : ∀ m, d.nodes.get? id = some m → Looped (∃ target, Fusible g p id m.signalOuts.keys target) m (f m)) :
    FusedFrom g p d (d.modifyNode id f) := by
  have changed := NodesChanged.modifyNode d id f
  refine ⟨rfl, changed.keys, fun other m found => ?_⟩
  by_cases same : other ∈ [id]
  · obtain ⟨_, found', rfl⟩ := changed.changed other same m found
    rw [List.mem_singleton.mp same] at found found' ⊢
    exact ⟨f m, found', change m found⟩
  · exact ⟨m, (changed.same other same).trans found, m.signalIns, m.loop, m.loopResolved, rfl, .inl rfl⟩

theorem fusedFrom_resolveLoop (d : Draft) (id : String) (loop : Option Sequence) :
    FusedFrom g p d (d.resolveLoop id loop) :=
  FusedFrom.modifyNode d id _ (fun m _ => ⟨m.signalIns, loop, true, rfl, .inl rfl⟩)

theorem fusedFrom_inlineInto {d : Draft} {id target : String} {m : NodeDraft} (stored : d.nodes.get? id = some m)
    (fusible : Fusible g p id m.signalOuts.keys target) (symbol expression : String) :
    FusedFrom g p d (d.inlineInto id target symbol expression) := by
  have written : FusedFrom g p d (d.modifyNode target (fun n =>
      { n with signalIns := n.signalIns.map (fun text => Text.replaceName text symbol ("(" ++ expression ++ ")")) })) :=
    FusedFrom.modifyNode d target _ (fun k _ => ⟨_, k.loop, k.loopResolved, Table.keys_map _ _, .inl rfl⟩)
  refine written.trans (FusedFrom.modifyNode _ id _ (fun k found => ?_))
  have outs : k.signalOuts = m.signalOuts := by
    have changed := NodesChanged.modifyNode d target (fun n =>
      { n with signalIns := n.signalIns.map (fun text => Text.replaceName text symbol ("(" ++ expression ++ ")")) })
    by_cases isTarget : id ∈ [target]
    · obtain ⟨k', found', rfl⟩ := changed.changed id isTarget m stored
      cases found.symm.trans found'
      rfl
    · cases ((changed.same id isTarget).symm.trans found).symm.trans stored
      rfl
  exact ⟨k.signalIns, none, true, rfl, .inr ⟨⟨target, outs ▸ fusible⟩, rfl⟩⟩

/-- The node has loop code that may stand where it is used. -/
def IsInline (input : BuildInput) (id : String) : Prop :=
  ∃ n i, input.graph.get? id = some n ∧ input.registry.types.get? n.type = some i ∧ i.flags.isInline = true

/-- The loop expression that the code of a node makes for the given inlets. -/
def loopExpression? (input : BuildInput) (symbols : Symbols) (id : String) (inlets : List (String × String)) :
    Option String := do
  let n ← input.graph.get? id
  let i ← input.registry.types.get? n.type
  let loop ← (i.loop ⟨n, symbols, input.settings, .ofList inlets⟩).toOption
  loop.bind Sequence.expression?

/-- What fusing a node may do to a draft that holds `m` for it: nothing, inline its loop expression, or store loop code,
    which assigns the expression if there is one and one variable. -/
inductive FuseStep (input : BuildInput) (symbols : Symbols) (p : Partition) (d : Draft) (id : String) (m : NodeDraft) :
    Draft → Prop where
  | plain (kept : ¬IsInline input id) : FuseStep input symbols p d id m d
  | inlined {target symbol text : String} (inline : IsInline input id)
      (made : loopExpression? input symbols id m.signalIns.entries = some text)
      (fits : fusionTarget? input.graph p id m.signalOuts.keys = some target)
      (first : m.signalOuts.values.head? = some symbol) :
      FuseStep input symbols p d id m (d.inlineInto id target symbol text)
  | assigned {loop : Option Sequence} (inline : IsInline input id)
      (code : ∀ text symbol, loopExpression? input symbols id m.signalIns.entries = some text →
        m.signalOuts.values = [symbol] → loop = some (.ofCode (symbol ++ " = " ++ text))) :
      FuseStep input symbols p d id m (d.resolveLoop id loop)

/-- Fusing a node fails only if its type is unknown or its loop generator fails. -/
theorem fuseNode_yields {input : BuildInput} {d : Draft} {id : String} {n : Node} {m : NodeDraft}
    (found : input.graph.get? id = some n) (stored : d.nodes.get? id = some m) (symbols : Symbols) (p : Partition) :
    Yields (fuseNode input symbols p d id) (FuseStep input symbols p d id m)
      (fun e => Served input ⟨symbols, d⟩ →
        Cold.Unknown input.graph input.registry ∨ input.registry.Raises input.graph e) := by
  unfold fuseNode
  rw [Graph.node_eq_ok_iff.mpr found]
  show Yields (input.registry.implementation n >>= _) _ _
  cases type : input.registry.types.get? n.type with
  | none =>
    rw [Registry.implementation, type]
    exact fun _ => .inl ⟨id, n, found, type⟩
  | some i =>
    rw [Registry.implementation_eq_ok_iff.mpr type]
    show Yields (if _ then _ else _) _ _
    split
    next plain =>
      refine .plain ?_
      rintro ⟨n', i', found', type', inline⟩
      cases found.symm.trans found'
      cases type.symm.trans type'
      simp [inline] at plain
    next flagged =>
    have inline : IsInline input id := ⟨n, i, found, type, by simpa using flagged⟩
    rw [context_eq_ok symbols found stored]
    show Yields (i.loop _ >>= _) _ _
    cases result : i.loop ⟨n, symbols, input.settings, m.signalIns⟩ with
    | error e =>
      intro served
      obtain ⟨_, i', serves⟩ := served id m n stored found
      cases type.symm.trans serves.type.registered
      exact .inr (.inl ⟨n.type, i, type, .inline serves (by simpa using flagged) result⟩)
    | ok loop =>
      have made : loopExpression? input symbols id m.signalIns.entries = loop.bind Sequence.expression? := by
        simp [loopExpression?, found, type, Table.ofList_entries, result, Except.toOption]
      dsimp only [bind, Except.bind]
      split
      next none => exact .assigned inline (fun text _ isText => by simp [made, none] at isText)
      next expression isExpression =>
        rw [node_eq_ok_iff.mpr stored]
        dsimp only
        split
        next target symbol rest isTarget values =>
          exact .inlined inline (made.trans isExpression) isTarget (by rw [values]; rfl)
        next symbol values _ =>
          refine .assigned inline (fun text own isText single => ?_)
          cases isExpression.symm.trans (made.symm.trans isText)
          cases values.symm.trans single
          rfl
        next several _ =>
          exact .assigned inline (fun text own _ single => absurd single (several own))

/-- A step changes nothing but inlet expressions, loop code and the node that it inlines. -/
theorem FuseStep.fusedFrom {input : BuildInput} {symbols : Symbols} {d d' : Draft} {id : String} {m : NodeDraft}
    (step : FuseStep input symbols p d id m d') (stored : d.nodes.get? id = some m) : FusedFrom input.graph p d d' := by
  cases step with
  | plain => exact .refl d
  | inlined _ _ fits _ => exact fusedFrom_inlineInto stored (fusible_of_fusionTarget? fits) _ _
  | assigned => exact fusedFrom_resolveLoop d id _

/-- The nodes whose loop expression stands in their sink. -/
def inlinedIds (d : Draft) : List String := (d.nodes.entries.filter (fun entry => entry.2.inlined)).map Prod.fst

theorem mem_inlinedIds_iff {d : Draft} {id : String} :
    id ∈ d.inlinedIds ↔ ∃ m, d.nodes.get? id = some m ∧ m.inlined = true := by
  simp only [inlinedIds, List.mem_map, List.mem_filter, Table.get?_eq_some_iff]
  constructor
  · rintro ⟨⟨key, m⟩, ⟨entry, inlined⟩, rfl⟩
    exact ⟨m, entry, inlined⟩
  · rintro ⟨m, entry, inlined⟩
    exact ⟨(id, m), ⟨entry, inlined⟩, rfl⟩

theorem nodup_inlinedIds (d : Draft) : d.inlinedIds.Nodup :=
  d.nodes.nodup_keys.sublist (List.filter_sublist.map Prod.fst)

/-- Two drafts with the same nodes inline the same ones if they agree on who is inlined. -/
theorem inlinedIds_congr {a b : Draft} (keys : b.nodes.keys = a.nodes.keys)
    (nodes : ∀ id m, a.nodes.get? id = some m → ∃ m', b.nodes.get? id = some m' ∧ m'.inlined = m.inlined) :
    b.inlinedIds = a.inlinedIds := by
  have read : ∀ d : Draft, d.inlinedIds = d.nodes.keys.filter (fun id => (d.nodes.get? id).any NodeDraft.inlined) := by
    intro d
    rw [inlinedIds, Table.keys, List.filter_map]
    refine congrArg _ (List.filter_congr (fun entry member => ?_))
    rw [Function.comp_apply, Table.get?_eq_some_iff.mpr member]
    rfl
  rw [read, read, keys]
  refine List.filter_congr (fun id member => ?_)
  obtain ⟨m, stored⟩ := Table.mem_keys_iff.mp member
  obtain ⟨m', stored', same⟩ := nodes id m stored
  rw [stored, stored', Option.any_some, Option.any_some, same]

theorem dropInlined_eq (d : Draft) : d.dropInlined = { d with partition := d.partition.without d.inlinedIds } := rfl

/-- All inline nodes are fused or assigned, one after the other. -/
theorem fuseAll_ends {input : BuildInput} {w : Workspace} {order : List String}
    (present : ∀ id ∈ order, ∃ n m, input.graph.get? id = some n ∧ w.draft.nodes.get? id = some m) (p : Partition) :
    Ends (order.forM (fun id => do
      let draft ← fuseNode input (← Build.symbols) p (← Build.draft) id
      Build.modifyDraft (fun _ => draft))) w
      (fun _ after => after.symbols = w.symbols ∧ order.foldlM (fuseNode input w.symbols p) w.draft = .ok after.draft ∧
        FusedFrom input.graph p w.draft after.draft)
      (fun e => Served input w → Cold.Unknown input.graph input.registry ∨ input.registry.Raises input.graph e) := by
  refine Ends.forM (fun done now => now.symbols = w.symbols ∧
    done.foldlM (fuseNode input w.symbols p) w.draft = .ok now.draft ∧ FusedFrom input.graph p w.draft now.draft)
    ⟨rfl, rfl, .refl _⟩ ?_
  rintro done id rest now split ⟨same, folded, fused⟩
  obtain ⟨n, m, found, stored⟩ := present id (by simp [split])
  obtain ⟨m', stored', _⟩ := fused.nodes id m stored
  refine Ends.symbols_bind (Ends.draft_bind (Ends.lift_bind ((fuseNode_yields found stored' now.symbols p).with_eq.mono ?_
    (fun _ bad served => bad (served.mono (same ▸ .refl _) fused.keepsInlets)))))
  rintro d ⟨ran, step⟩
  refine ⟨same, ?_, fused.trans (step.fusedFrom stored')⟩
  rw [List.foldlM_append, ← same]
  exact bind_eq_ok_iff.mpr ⟨now.draft, same ▸ folded, bind_eq_ok_iff.mpr ⟨d, ran, rfl⟩⟩

/-- A node of the draft after the partition: it keeps its plans, and if it is inlined it has no variables. -/
def NodeDivided (g : Graph) (p : Partition) (id : String) (before after : NodeDraft) : Prop :=
  after.senderPlans = before.senderPlans ∧ after.receivers = before.receivers ∧
    after.signalIns.keys = before.signalIns.keys ∧ (before.inlined = false → after.inlined = true →
      after.signalOuts = ∅ ∧ ∃ target, Fusible g p id before.signalOuts.keys target)

/-- The workspace after the partition, whose groups were `p` before inlined nodes were taken out. -/
structure Divided (g : Graph) (p : Partition) (before after : Workspace) : Prop where
  grows : before.symbols.Grows after.symbols
  types : after.draft.types = before.draft.types
  keys : after.draft.nodes.keys = before.draft.nodes.keys
  staged : ∀ m ∈ after.draft.nodes.values, m.stage = .dspPartitioned
  numbered : Numbered after.symbols p.cold
  partition : after.draft.partition = p.without after.draft.inlinedIds
  nodes : ∀ id m, before.draft.nodes.get? id = some m → ∃ m', after.draft.nodes.get? id = some m' ∧
    NodeDivided g p id m m'

theorem Divided.keepsInlets {before after : Workspace} (divided : Divided g p before after) :
    KeepsInlets before.draft after.draft := by
  refine ⟨divided.keys, fun id m stored => ?_⟩
  obtain ⟨m', stored', _, _, keys, _⟩ := divided.nodes id m stored
  exact ⟨m', stored', keys⟩

theorem divided_of_fused {w : Workspace} {symbols : Symbols} {fused : Draft} (grows : w.symbols.Grows symbols)
    (numbered : Numbered symbols p.cold) (fusing : FusedFrom g p { w.draft with partition := p } fused) :
    Divided g p w ⟨symbols, fused.dropInlined.atStage .dspPartitioned⟩ := by
  have inlinedAt : (fused.dropInlined.atStage .dspPartitioned).inlinedIds = fused.inlinedIds := by
    refine inlinedIds_congr (Table.keys_map _ _) (fun id m stored => ⟨{ m with stage := .dspPartitioned }, ?_, rfl⟩)
    rw [get?_atStage, dropInlined_eq, stored]
    rfl
  refine ⟨grows, ?_, ?_, stage_atStage _ _, numbered, ?_, fun id m stored => ?_⟩
  · show fused.types = _
    rw [fusing.only]
  · rw [atStage, Table.keys_map, dropInlined_eq, fusing.keys]
  · have kept : fused.partition = p := by rw [fusing.only]
    rw [inlinedAt, ← kept]
    rfl
  · obtain ⟨m', stored', looped⟩ := fusing.nodes id m stored
    refine ⟨{ m' with stage := .dspPartitioned }, ?_, ?_⟩
    · rw [get?_atStage, dropInlined_eq, stored']
      rfl
    · obtain ⟨_, _, _, keys, rfl | ⟨fusible, rfl⟩⟩ := looped
      · exact ⟨rfl, rfl, keys, fun plain inlined => absurd (plain.symm.trans inlined) Bool.false_ne_true⟩
      · exact ⟨rfl, rfl, keys, fun _ _ => ⟨rfl, fusible⟩⟩

theorem walked_of_runnable {full signal : List String} (runnable : g.Runnable full)
    (walk : g.signalTraversal (fun _ => true) (pulling g full) = .ok signal) : Walked g full signal := by
  obtain ⟨_, walk', pulled⟩ := Graph.signalTraversal_pulling runnable.wf
    (fun v n found _ => (runnable.complete v).mpr ⟨n, found⟩)
  cases walk.symm.trans walk'
  exact ⟨runnable.wf, pulled, runnable.runOrder pulled⟩

/-- The draft is what fusing the nodes of `order` in turn leaves, without the inlined nodes in the groups. -/
def FusedInOrder (input : BuildInput) (order : List String) (p : Partition) (w after : Workspace) : Prop :=
  ∃ fused, order.foldlM (fuseNode input after.symbols p) { w.draft with partition := p } = .ok fused ∧
    after.draft = fused.dropInlined.atStage .dspPartitioned

/-- The partition of a prepared draft. In a graph that can run it fails only if a type is unknown or a loop generator
    fails. -/
theorem partitionDsp_ends {input : BuildInput} {w : Workspace} {full : List String}
    (prepared : Prepared input full .dependenciesCollected w) :
    Ends (partitionDsp input) w
      (fun _ after => ∃ signal p between,
        input.graph.signalTraversal (fun _ => true) (pulling input.graph full) = .ok signal ∧
        (splitGroups input full signal).run.run w = (.ok p, between) ∧ Divided input.graph p w after ∧
        FusedInOrder input (full.filter (fun id => signal.contains id)) p w after ∧
        SplitFrom input.graph input.registry full signal p ∧
        (Walked input.graph full signal → ∃ firsts,
          SplitOf input.graph input.registry full (full.filter (fun id => signal.contains id)) firsts p))
      (fun e => input.graph.Runnable full → Served input w →
        Cold.Unknown input.graph input.registry ∨ input.registry.Raises input.graph e) := by
  refine Ends.pass prepared.staged (Ends.draft_bind (Ends.lift_bind ?_))
  rw [prepared.partition, Partition.start]
  refine (Yields.self _).mono (fun signal walk => ?_) (fun e failed runnable _ => ?_)
  · refine Ends.bind ((splitGroups_ends full signal).with_run.mono (fun _ _ post => post)
      (fun _ bad runnable _ => .inl (bad (walked_of_runnable runnable walk)))) ?_
    rintro p between ⟨ran, same, grows, numbered, formed, split⟩
    have inlets : KeepsInlets w.draft { between.draft with partition := p } := same ▸ ⟨rfl, (KeepsInlets.refl _).nodes⟩
    refine Ends.modifyDraft_bind (Ends.bind ((fuseAll_ends (fun id member => ?_) p).mono (fun _ _ post => post)
      (fun _ bad _ served => bad (served.mono grows inlets))) ?_)
    · have listed : id ∈ full := (List.mem_filter.mp member).1
      obtain ⟨n, found⟩ := prepared.present id listed
      obtain ⟨m, stored⟩ := Table.mem_keys_iff.mp ((prepared.keys id).mpr listed)
      exact ⟨n, m, found, same.symm ▸ stored⟩
    rintro _ after ⟨sameSymbols, folded, fused⟩
    rw [same] at folded fused
    refine Ends.modifyDraft ⟨signal, p, between, walk, ran, ?_, ⟨after.draft, ?_, rfl⟩, formed, split⟩
    · exact divided_of_fused (sameSymbols ▸ grows) (sameSymbols ▸ numbered) fused
    · rw [sameSymbols]
      exact folded
  · obtain ⟨_, walk, _⟩ := Graph.signalTraversal_pulling runnable.wf
      (fun v n found _ => (runnable.complete v).mpr ⟨n, found⟩)
    cases failed.symm.trans walk

/-- The partition of a well-formed graph, whose groups were `p` before inlined nodes were taken out. -/
structure Partitioned (input : BuildInput) (full order firsts : List String) (p : Partition) (w : Workspace) : Prop where
  keys : ∀ id, id ∈ w.draft.nodes.keys ↔ id ∈ full
  split : SplitOf input.graph input.registry full order firsts p
  numbered : Numbered w.symbols p.cold
  partition : w.draft.partition = p.without w.draft.inlinedIds
  elided : ∀ id d, w.draft.nodes.get? id = some d → d.inlined = true → d.signalOuts = ∅
  inlined : ∀ id ∈ w.draft.inlinedIds, ∃ n target, input.graph.get? id = some n ∧
    Fusible input.graph p id ((n.outletsOf .signal).map Portlet.id) target

theorem Divided.partitioned {input : BuildInput} {w after : Workspace} {full order firsts : List String} {stage : Stage}
    (divided : Divided input.graph p w after) (wf : input.graph.WellFormed) (prepared : Prepared input full stage w)
    (split : SplitOf input.graph input.registry full order firsts p) : Partitioned input full order firsts p after := by
  have node : ∀ id d, after.draft.nodes.get? id = some d → d.inlined = true → d.signalOuts = ∅ ∧
      ∃ n target, input.graph.get? id = some n ∧
        Fusible input.graph p id ((n.outletsOf .signal).map Portlet.id) target := by
    intro id d stored inlined
    obtain ⟨m, before⟩ := Table.mem_keys_iff.mp (divided.keys ▸ Table.mem_keys_of_get? stored)
    obtain ⟨n, found, _, ready⟩ := prepared.nodes id m before
    obtain ⟨m', stored', _, _, _, fused⟩ := divided.nodes id m before
    cases stored.symm.trans stored'
    obtain ⟨elided, target, fusible⟩ := fused ready.inlined inlined
    exact ⟨elided, n, target, found, ready.outs (Graph.nodup_outletsOf wf found .signal) ▸ fusible⟩
  refine ⟨fun id => divided.keys.symm ▸ prepared.keys id, split, divided.numbered, divided.partition,
    fun id d stored inlined => (node id d stored inlined).1, fun id member => ?_⟩
  obtain ⟨d, stored, inlined⟩ := mem_inlinedIds_iff.mp member
  exact (node id d stored inlined).2

end Draft
end DspPatch
