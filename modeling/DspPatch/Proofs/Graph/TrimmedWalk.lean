import DspPatch.Proofs.Graph.FullTraversal

/-!
Walks of a trimmed graph. A walk that stays within the kept nodes finds the same nodes in the same order after trimming,
because every source and every target that it follows is kept. So the full traversal lists itself again in the graph that
is trimmed to it, and nodes that it does not reach have no part in it.
-/
namespace DspPatch.Graph
variable {g : Graph} {keep : List String}

/-- A graph is trimmed once. -/
theorem trim_trim (keyed : ∀ {key n}, g.get? key = some n → n.id = key) (keep : List String) :
    (g.trim keep).trim keep = g.trim keep := by
  rw [trim_trim_inter keyed, List.filter_eq_self.mpr (fun _ member => decide_eq_true member)]

/-- The ends of a record that are kept. -/
def keepRecord (keep : List String) (entry : String × List Endpoint) : String × List Endpoint :=
  (entry.1, entry.2.filter (fun e => e.node ∈ keep))

theorem recordSources_keepRecord {n : Node} {entry : String × List Endpoint} {group : List (String × String)}
    (read : recordSources n entry = .ok group) :
    recordSources (trimNode keep n) (keepRecord keep entry) = .ok (group.filter (fun source => source.2 ∈ keep)) := by
  obtain ⟨p, declared, same⟩ := bind_eq_ok_iff.mp read
  cases same
  refine bind_eq_ok_iff.mpr ⟨p, declared, congrArg Except.ok ?_⟩
  by_cases signal : p.kind = .signal
  · rw [if_pos signal, if_pos signal, List.filter_map]
    rfl
  · rw [if_neg signal, if_neg signal, List.filter_nil]

theorem recordSources_empty {n : Node} {entry : String × List Endpoint} {group : List (String × String)}
    (read : recordSources n entry = .ok group) (empty : entry.2 = []) : group = [] := by
  obtain ⟨p, _, same⟩ := bind_eq_ok_iff.mp read
  cases same
  rw [empty, List.map_nil, ite_self]

/-- The signal sources of a trimmed node are those that are kept. -/
theorem signalSources_trimNode {n : Node} {list : List (String × String)} (read : signalSources n = .ok list) :
    signalSources (trimNode keep n) = .ok (list.filter (fun entry => entry.2 ∈ keep)) := by
  obtain ⟨groups, related, rfl⟩ := signalSources_eq_ok_iff.mp read
  rw [signalSources_eq_ok_iff]
  show ∃ kept, List.Forall₂ _ ((n.sources.entries.map (keepRecord keep)).filter (fun entry => !entry.2.isEmpty)) kept ∧ _
  clear read
  generalize n.sources.entries = entries at related
  induction related with
  | nil => exact ⟨[], .nil, rfl⟩
  | @cons entry group rest groups first _ ih =>
    obtain ⟨kept, rest, flat⟩ := ih
    have trimmed : recordSources (trimNode keep n) (keepRecord keep entry) = _ := recordSources_keepRecord first
    rw [List.flatten_cons, List.filter_append, ← flat, List.map_cons]
    by_cases empty : (keepRecord keep entry).2 = []
    · rw [List.filter_cons_of_neg (by simp [empty]), recordSources_empty trimmed empty]
      exact ⟨kept, rest, rfl⟩
    · rw [List.filter_cons_of_pos (by simpa using empty)]
      exact ⟨_, .cons trimmed rest, rfl⟩

/-- In a mirrored graph every source that is recorded can be followed. -/
theorem Mirrored.not_faulty (mirrored : g.Mirrored) {explore : Node → Bool} {v : String} : ¬g.Faulty explore v := by
  rintro ⟨n, found, _, ⟨e, failed⟩ | ⟨list, inlet, u, read, member, missing⟩⟩
  · obtain ⟨list, read⟩ := exists_signalSources_iff.mpr (mirrored.inletDeclared found)
    cases failed.symm.trans read
  · obtain ⟨inlet, p, _, _, source, recorded, rfl⟩ := (exists_mem_signalSources_iff read).mp ⟨inlet, member⟩
    obtain ⟨origin, originFound, _⟩ := mirrored.sourceDeclared found inlet source recorded
    cases missing.symm.trans originFound

/-- Two loops over the same items, of which the second passes over some of them, end alike if every step of the first
    that stays within `keep` is at an item that the second does not pass over, and comes to the same there. -/
theorem foldlM_filter_eq {α : Type} {f f' : List String → α → Except CompileError (List String)} {pass : α → Bool}
    (grows : ∀ listed a, Yields (f listed a) (listed ⊆ ·) (fun _ => True))
    (step : ∀ listed a next, next ⊆ keep → f listed a = .ok next →
      pass a = true ∧ ∀ next', f' listed a = .ok next' → next' = next)
    {items : List α} {done listed listed' : List String} (within : listed ⊆ keep)
    (ran : items.foldlM f done = .ok listed) (ran' : (items.filter pass).foldlM f' done = .ok listed') :
    listed' = listed := by
  induction items generalizing done with
  | nil =>
    cases ran
    cases ran'
    rfl
  | cons a rest ih =>
    rw [List.foldlM_cons] at ran
    obtain ⟨next, first, later⟩ := bind_eq_ok_iff.mp ran
    have grown : Yields (rest.foldlM f next) (next ⊆ ·) (fun _ => True) := by
      refine Yields.foldlM (fun _ listed => next ⊆ listed) (List.Subset.refl _) ?_
      intro seen a rest listed _ kept
      exact (grows listed a).mono (fun _ more => List.Subset.trans kept more) (fun _ bad => bad)
    obtain ⟨passed, same⟩ := step done a next (List.Subset.trans (grown.of_eq_ok later) within) first
    rw [List.filter_cons_of_pos passed, List.foldlM_cons] at ran'
    obtain ⟨next', first', later'⟩ := bind_eq_ok_iff.mp ran'
    cases same next' first'
    exact ih later later'

section Signal
variable {depth depth' : Nat}

/-- A walk keeps what was listed and lists its root. -/
def WalksGrow (g : Graph) (depth : Nat) : Prop :=
  ∀ path n done, Yields (g.walkFrom (fun _ => true) depth path n done) (fun order => done ⊆ order ∧ n.id ∈ order)
    (fun _ => True)

theorem walkSource_grows (walks : g.WalksGrow depth) (path : List String) (n : Node) (listed : List String)
    (entry : String × String) :
    Yields (g.walkSource (fun _ => true) depth path n listed entry) (listed ⊆ ·) (fun _ => True) := by
  unfold walkSource
  split
  next => trivial
  next source _ =>
    split
    next => exact List.Subset.refl _
    next => exact (walks _ source listed).mono (fun _ grown => grown.1) (fun _ bad => bad)

theorem walksGrow (g : Graph) (depth : Nat) : g.WalksGrow depth := by
  induction depth with
  | zero => exact fun _ _ _ => trivial
  | succ depth ih =>
    intro path n done
    rw [walkFrom_succ]
    refine Yields.bind ((Yields.self _).mono (fun _ _ => trivial) (fun _ _ => trivial)) (fun sources _ => ?_)
    refine Yields.bind (Yields.foldlM (fun _ listed => done ⊆ listed) (List.Subset.refl _) ?_) ?_
    · intro seen entry rest listed _ kept
      exact (walkSource_grows ih path n listed entry).mono (fun _ grown => List.Subset.trans kept grown) (fun _ bad => bad)
    · intro listed kept
      exact ⟨List.Subset.trans kept (List.subset_append_left _ _), by simp⟩

/-- A walk that stays within the kept nodes and a walk of the trimmed graph list the same nodes. -/
def WalksAgree (g : Graph) (keep : List String) (depth depth' : Nat) : Prop :=
  ∀ path n done order order', path ⊆ keep → order ⊆ keep →
    g.walkFrom (fun _ => true) depth path n done = .ok order →
    (g.trim keep).walkFrom (fun _ => true) depth' path (trimNode keep n) done = .ok order' → order' = order

/-- A source that the walk comes to is kept, and trimming does not change what the walk does there. -/
theorem walkSource_trim (keyed : ∀ {key n}, g.get? key = some n → n.id = key) (agree : g.WalksAgree keep depth depth')
    {path : List String} {n : Node} (entered : n.id :: path ⊆ keep) {listed next : List String} {entry : String × String}
    (within : next ⊆ keep) (walked : g.walkSource (fun _ => true) depth path n listed entry = .ok next) :
    entry.2 ∈ keep ∧ ∀ next',
      (g.trim keep).walkSource (fun _ => true) depth' path (trimNode keep n) listed entry = .ok next' → next' = next := by
  obtain ⟨inlet, id⟩ := entry
  unfold walkSource at walked
  cases found : g.get? id with
  | none =>
    rw [found] at walked
    cases walked
  | some source =>
    obtain rfl : source.id = id := keyed found
    rw [found] at walked
    have trimmed : source.id ∈ keep → (g.trim keep).get? source.id = some (trimNode keep source) := fun kept =>
      (get?_trim keyed).mpr ⟨source, found, kept, rfl⟩
    by_cases known : source.id ∈ listed ∨ source.id = n.id ∨ source.id ∈ path
    · simp only [known, if_true] at walked
      cases walked
      have kept : source.id ∈ keep := by
        rcases known with old | same | outer
        · exact within old
        · exact entered (same ▸ List.mem_cons_self)
        · exact entered (List.mem_cons_of_mem _ outer)
      refine ⟨kept, fun next' walked' => ?_⟩
      have known' : source.id ∈ listed ∨ source.id = (trimNode keep n).id ∨ source.id ∈ path := known
      simp only [walkSource, trimmed kept, known', if_true] at walked'
      cases walked'
      rfl
    · simp only [known, if_false] at walked
      have kept : source.id ∈ keep := within ((g.walksGrow depth _ source listed).of_eq_ok walked).2
      refine ⟨kept, fun next' walked' => ?_⟩
      have known' : ¬(source.id ∈ listed ∨ source.id = (trimNode keep n).id ∨ source.id ∈ path) := known
      simp only [walkSource, trimmed kept, known', if_false] at walked'
      exact agree (n.id :: path) source listed next next' entered within walked walked'

theorem walksAgree (keyed : ∀ {key n}, g.get? key = some n → n.id = key) (keep : List String) (depth depth' : Nat) :
    g.WalksAgree keep depth depth' := by
  induction depth generalizing depth' with
  | zero =>
    intro path n done order order' _ _ walked
    cases walked
  | succ depth ih =>
    intro path n done order order' entered within walked walked'
    cases depth' with
    | zero => cases walked'
    | succ depth' =>
      rw [walkFrom_succ, if_pos rfl] at walked walked'
      obtain ⟨sources, read, rest⟩ := bind_eq_ok_iff.mp walked
      obtain ⟨listed, fold, same⟩ := bind_eq_ok_iff.mp rest
      cases same
      rw [signalSources_trimNode read] at walked'
      obtain ⟨_, read', rest'⟩ := bind_eq_ok_iff.mp walked'
      cases read'
      obtain ⟨listed', fold', same'⟩ := bind_eq_ok_iff.mp rest'
      cases same'
      have listedKept : listed ⊆ keep := List.Subset.trans (List.subset_append_left _ _) within
      have rootKept : n.id ∈ keep := within (by simp)
      have sameListed : listed' = listed := by
        refine foldlM_filter_eq (walkSource_grows (g.walksGrow depth) path n) ?_ listedKept fold fold'
        intro before entry next nextKept step
        obtain ⟨kept, agrees⟩ :=
          walkSource_trim keyed (ih depth') (List.cons_subset.mpr ⟨rootKept, entered⟩) nextKept step
        exact ⟨decide_eq_true kept, agrees⟩
      rw [sameListed]
      rfl

/-- The walk from one root. -/
def walkRoot (g : Graph) (done : List String) (root : String) : Except CompileError (List String) := do
  let n ← g.node root
  if n.id ∈ done then return done else g.walkFrom (fun _ => true) g.walkDepth [] n done

theorem walkRoot_grows (g : Graph) (done : List String) (root : String) :
    Yields (g.walkRoot done root) (done ⊆ ·) (fun _ => True) := by
  refine Yields.bind ((Yields.self _).mono (fun _ _ => trivial) (fun _ _ => trivial)) (fun n _ => ?_)
  split
  next => exact List.Subset.refl _
  next => exact (g.walksGrow _ [] n done).mono (fun _ grown => grown.1) (fun _ bad => bad)

theorem walkRoot_trim (keyed : ∀ {key n}, g.get? key = some n → n.id = key) {done next next' : List String} {root : String}
    (within : next ⊆ keep) (walked : g.walkRoot done root = .ok next) (walked' : (g.trim keep).walkRoot done root = .ok next') :
    next' = next := by
  obtain ⟨n, found, walked⟩ := bind_eq_ok_iff.mp walked
  obtain ⟨n', found', walked'⟩ := bind_eq_ok_iff.mp walked'
  obtain ⟨full, fullFound, _, rfl⟩ := (get?_trim keyed).mp (node_eq_ok_iff.mp found')
  cases (node_eq_ok_iff.mp found).symm.trans fullFound
  by_cases known : n.id ∈ done
  · have known' : (trimNode keep n).id ∈ done := known
    simp only [known, if_true] at walked
    simp only [known', if_true] at walked'
    cases walked
    cases walked'
    rfl
  · have known' : (trimNode keep n).id ∉ done := known
    simp only [known, if_false] at walked
    simp only [known', if_false] at walked'
    exact walksAgree keyed keep _ _ [] n done next next' (List.nil_subset _) within walked walked'

/-- A signal walk that stays within the kept nodes is not changed by trimming. -/
theorem signalTraversal_trim (mirrored : g.Mirrored) {roots order : List String}
    (walked : g.signalTraversal (fun _ => true) roots = .ok order) (within : order ⊆ keep) :
    (g.trim keep).signalTraversal (fun _ => true) roots = .ok order := by
  have listed := (signalTraversal_yields mirrored.keyed (fun _ => true) roots).of_eq_ok walked
  have outcome := signalTraversal_yields (keyed_trim g keep) (fun _ => true) roots
  cases walked' : (g.trim keep).signalTraversal (fun _ => true) roots with
  | error e =>
    obtain ⟨root, member, missing | ⟨v, _, faulty⟩⟩ := outcome.of_eq_error walked'
    · have rootListed := (listed.mem_iff root).mpr ⟨root, member, .refl⟩
      obtain ⟨n, found⟩ := listed.known root rootListed
      have trimmed := (get?_trim mirrored.keyed).mpr ⟨n, found, within rootListed, rfl⟩
      cases missing.symm.trans trimmed
    · exact absurd faulty (mirrored_trim mirrored keep).not_faulty
  | ok order' =>
    have all : roots.filter (fun _ => true) = roots := List.filter_true roots
    have ran : roots.foldlM g.walkRoot [] = .ok order := walked
    have ran' : (roots.filter (fun _ => true)).foldlM (g.trim keep).walkRoot [] = .ok order' := all.symm ▸ walked'
    rw [foldlM_filter_eq g.walkRoot_grows (fun _ _ _ kept step => ⟨rfl, fun _ => walkRoot_trim mirrored.keyed kept step⟩)
      within ran ran']

end Signal

/-- The node at a sink of an outlet. -/
def sinkTarget (g : Graph) (n : Node) (outlet : Portlet) (sink : Endpoint) : Except CompileError Node :=
  match g.get? sink.node with
  | none => .error (.graph (.atPortlet n.id outlet.id) (.missingSink sink.node))
  | some target => .ok target

theorem sinkTarget_eq_ok_iff {n target : Node} {outlet : Portlet} {sink : Endpoint} :
    g.sinkTarget n outlet sink = .ok target ↔ g.get? sink.node = some target := by
  unfold sinkTarget
  cases g.get? sink.node <;> simp

theorem messageTargets_eq_ok_iff {n : Node} {targets : List Node} :
    g.messageTargets n = .ok targets ↔ ∃ groups, List.Forall₂ (fun outlet group =>
      List.Forall₂ (fun sink target => g.get? sink.node = some target) (n.sinksOf outlet.id) group)
      (n.outletsOf .message) groups ∧ groups.flatten = targets := by
  show ((n.outletsOf .message).mapM (fun outlet => (n.sinksOf outlet.id).mapM (g.sinkTarget n outlet)) >>=
    fun groups => pure groups.flatten) = .ok targets ↔ _
  rw [bind_eq_ok_iff]
  simp only [mapM_eq_ok_iff, sinkTarget_eq_ok_iff, pure, Except.pure, Except.ok.injEq]

/-- The targets of a trimmed node, if all of them are kept. -/
theorem messageTargets_trimNode (keyed : ∀ {key n}, g.get? key = some n → n.id = key) {n : Node} {targets : List Node}
    (read : g.messageTargets n = .ok targets) (kept : ∀ target ∈ targets, target.id ∈ keep) :
    (g.trim keep).messageTargets (trimNode keep n) = .ok (targets.map (trimNode keep)) := by
  obtain ⟨groups, related, rfl⟩ := messageTargets_eq_ok_iff.mp read
  refine messageTargets_eq_ok_iff.mpr ⟨groups.map (List.map (trimNode keep)), ?_, List.map_flatten.symm⟩
  rw [List.forall₂_map_right_iff]
  refine forall₂_of_mem related (fun outlet _ group listed found => ?_)
  have groupKept : ∀ target ∈ group, target.id ∈ keep := fun target inside =>
    kept target (List.mem_flatten.mpr ⟨group, listed, inside⟩)
  have all : (trimNode keep n).sinksOf outlet.id = n.sinksOf outlet.id := by
    rw [sinksOf_trimNode, List.filter_eq_self]
    intro sink member
    obtain ⟨target, inside, present⟩ := exists_right_of_forall₂ found member
    rw [decide_eq_true_eq, ← keyed present]
    exact groupKept target inside
  rw [all, List.forall₂_map_right_iff]
  refine forall₂_of_mem found (fun sink _ target inside present => ?_)
  exact (get?_trim keyed).mpr ⟨target, present, keyed present ▸ groupKept target inside, rfl⟩

/-- A message walk that stays within the kept nodes is not changed by trimming. -/
theorem messageTraversal_trim (keyed : ∀ {key n}, g.get? key = some n → n.id = key) {roots order : List String}
    (walked : g.messageTraversal roots = .ok order) (within : order ⊆ keep) :
    (g.trim keep).messageTraversal roots = .ok order := by
  obtain ⟨starts, started, walked⟩ := bind_eq_ok_iff.mp walked
  obtain ⟨found, searched, same⟩ := bind_eq_ok_iff.mp walked
  cases same
  rw [mapM_eq_ok_iff] at started
  simp only [node_eq_ok_iff] at started
  have reached := (Search.breadthFirst_yields _ _ _ _).of_eq_ok searched
  have known : ∀ {id n}, g.get? id = some n → n.id ∈ g.nodes.values.map Node.id := fun present =>
    (mem_ids_iff keyed).mpr ⟨_, keyed present ▸ present⟩
  -- The walk comes to all roots and all targets, so all of them are kept.
  have startKept : ∀ start ∈ starts, start.id ∈ keep := by
    intro start member
    obtain ⟨root, _, present⟩ := exists_left_of_forall₂ started member
    exact within (reached.rootsFound start member (known present))
  have targetKept : ∀ n ∈ found, ∀ targets, g.messageTargets n = .ok targets → ∀ target ∈ targets,
      target.id ∈ keep ∧ ∃ id, g.get? id = some target := by
    intro n member targets read target listed
    obtain ⟨groups, related, rfl⟩ := messageTargets_eq_ok_iff.mp read
    obtain ⟨group, groupListed, inside⟩ := List.mem_flatten.mp listed
    obtain ⟨outlet, _, sinks⟩ := exists_left_of_forall₂ related groupListed
    obtain ⟨sink, _, present⟩ := exists_left_of_forall₂ sinks inside
    obtain ⟨list, same, closed⟩ := reached.closed n member
    cases read.symm.trans same
    exact ⟨within (closed target listed (known present)), sink.node, present⟩
  have sameLabels : ∀ target : Node, target.id ∈ keep → (∃ id, g.get? id = some target) →
      (target.id ∈ (g.trim keep).nodes.values.map Node.id ↔ target.id ∈ g.nodes.values.map Node.id) := by
    rintro target kept ⟨id, present⟩
    refine iff_of_true ((mem_ids_iff (keyed_trim g keep)).mpr ?_) (known present)
    exact ⟨_, (get?_trim keyed).mpr ⟨target, keyed present ▸ present, kept, rfl⟩⟩
  have starts' : roots.mapM (g.trim keep).node = .ok (starts.map (trimNode keep)) := by
    rw [mapM_eq_ok_iff, List.forall₂_map_right_iff]
    refine forall₂_of_mem started (fun root _ start member present => ?_)
    exact node_eq_ok_iff.mpr ((get?_trim keyed).mpr ⟨start, present, keyed present ▸ startKept start member, rfl⟩)
  have searched' : Search.breadthFirst ((g.trim keep).nodes.values.map Node.id) Node.id (g.trim keep).messageTargets
      (starts.map (trimNode keep)) = .ok (found.map (trimNode keep)) := by
    apply Search.breadthFirst_map (trimNode keep) (fun _ => rfl) searched
    · intro start member
      obtain ⟨root, _, present⟩ := exists_left_of_forall₂ started member
      exact sameLabels start (startKept start member) ⟨root, present⟩
    · intro n member targets read
      have kept := targetKept n member targets read
      exact ⟨messageTargets_trimNode keyed read (fun target listed => (kept target listed).1),
        fun target listed => sameLabels target (kept target listed).1 (kept target listed).2⟩
  refine bind_eq_ok_iff.mpr ⟨_, starts', bind_eq_ok_iff.mpr ⟨_, searched', ?_⟩⟩
  rw [List.map_map]
  rfl

/-- The selected nodes of a trimmed graph, if all of them are kept. -/
theorem selectedIds_trim (keyed : ∀ {key n}, g.get? key = some n → n.id = key) {select : Node → Bool}
    (same : ∀ n, select (trimNode keep n) = select n)
    (kept : ∀ key n, g.get? key = some n → select n = true → key ∈ keep) :
    ((g.trim keep).nodes.values.filter select).map Node.id = (g.nodes.values.filter select).map Node.id := by
  have entries := entries_trim keyed keep
  simp only [Table.values, entries, List.filter_map, List.map_map, List.filter_filter]
  have selected : ∀ entry ∈ g.nodes.entries, (select (trimNode keep entry.2) && decide (entry.1 ∈ keep)) = select entry.2 := by
    intro entry member
    rw [same]
    by_cases chosen : select entry.2 = true
    · simp [chosen, kept entry.1 entry.2 (Table.get?_eq_some_iff.mpr member) chosen]
    · simp [chosen]
  simp only [Function.comp_def]
  rw [List.filter_congr selected]
  rfl

theorem pullingIds_trim (keyed : ∀ {key n}, g.get? key = some n → n.id = key) (kept : g.pullingIds ⊆ keep) :
    (g.trim keep).pullingIds = g.pullingIds :=
  selectedIds_trim keyed (fun _ => rfl) (fun _ n found pulls => kept ((mem_pullingIds_iff keyed).mpr ⟨n, found, pulls⟩))

theorem pushingIds_trim (keyed : ∀ {key n}, g.get? key = some n → n.id = key) (kept : g.pushingIds ⊆ keep) :
    (g.trim keep).pushingIds = g.pushingIds :=
  selectedIds_trim keyed (fun _ => rfl) (fun _ n found pushes => kept ((mem_pushingIds_iff keyed).mpr ⟨n, found, pushes⟩))

/-- What a full traversal is made of. -/
theorem fullTraversal_eq_ok_iff {callers full : List String} :
    g.fullTraversal callers = .ok full ↔ (∀ id ∈ callers, ∃ n, g.get? id = some n) ∧ ∃ signal message,
      g.signalTraversal (fun _ => true) g.pullingIds = .ok signal ∧
      g.messageTraversal (g.pushingIds ++ callers.filter (fun id => id ∉ g.pushingIds)) = .ok message ∧
      full = signal ++ message.filter (fun id => id ∉ signal) := by
  have present_iff : ∀ id, discard (g.node id) = .ok () ↔ ∃ n, g.get? id = some n := by
    intro id
    unfold node
    cases g.get? id <;> simp [discard, Functor.mapConst, Except.map]
  unfold fullTraversal
  rw [then_eq_ok_iff, forM_eq_ok_iff]
  simp only [present_iff, bind_eq_ok_iff, pure, Except.pure, Except.ok.injEq]
  constructor
  · rintro ⟨called, signal, signalWalk, message, messageWalk, rfl⟩
    exact ⟨called, signal, message, signalWalk, messageWalk, rfl⟩
  · rintro ⟨called, signal, message, signalWalk, messageWalk, rfl⟩
    exact ⟨called, signal, signalWalk, message, messageWalk, rfl⟩

/-- The roots of a message walk are listed. -/
theorem subset_messageTraversal (keyed : ∀ {key n}, g.get? key = some n → n.id = key) {roots order : List String}
    (walked : g.messageTraversal roots = .ok order) : roots ⊆ order := by
  obtain ⟨starts, started, walked⟩ := bind_eq_ok_iff.mp walked
  obtain ⟨found, searched, same⟩ := bind_eq_ok_iff.mp walked
  cases same
  have reached := (Search.breadthFirst_yields _ _ _ _).of_eq_ok searched
  intro root member
  obtain ⟨start, listed, result⟩ := exists_right_of_forall₂ (mapM_eq_ok_iff.mp started) member
  have present := node_eq_ok_iff.mp result
  have inside := reached.rootsFound start listed ((mem_ids_iff keyed).mpr ⟨start, keyed present ▸ present⟩)
  rwa [keyed present] at inside

/-- The full traversal of a graph that is trimmed to its own full traversal. -/
theorem fullTraversal_trim (mirrored : g.Mirrored) {callers full : List String}
    (traversal : g.fullTraversal callers = .ok full) : (g.trim full).fullTraversal callers = .ok full := by
  obtain ⟨called, signal, message, signalWalk, messageWalk, same⟩ := fullTraversal_eq_ok_iff.mp traversal
  have signalKept : signal ⊆ full := same ▸ List.subset_append_left _ _
  have messageKept : message ⊆ full := by
    intro id member
    rw [same]
    by_cases pulled : id ∈ signal
    · exact List.mem_append_left _ pulled
    · exact List.mem_append_right _ (List.mem_filter.mpr ⟨member, decide_eq_true pulled⟩)
  have rootsKept := List.Subset.trans (subset_messageTraversal mirrored.keyed messageWalk) messageKept
  have pushingKept : g.pushingIds ⊆ full := fun id member => rootsKept (List.mem_append_left _ member)
  have pullingKept : g.pullingIds ⊆ full := by
    intro id member
    have listed := (signalTraversal_yields mirrored.keyed _ _).of_eq_ok signalWalk
    exact signalKept ((listed.mem_iff id).mpr ⟨id, member, .refl⟩)
  rw [fullTraversal_eq_ok_iff, pullingIds_trim mirrored.keyed pullingKept, pushingIds_trim mirrored.keyed pushingKept]
  refine ⟨fun id member => ?_, signal, message, signalTraversal_trim mirrored signalWalk signalKept,
    messageTraversal_trim mirrored.keyed messageWalk messageKept, same⟩
  have kept : id ∈ full := by
    by_cases pushing : id ∈ g.pushingIds
    · exact pushingKept pushing
    · exact rootsKept (List.mem_append_right _ (List.mem_filter.mpr ⟨member, decide_eq_true pushing⟩))
  obtain ⟨n, found⟩ := called id member
  exact ⟨_, (get?_trim mirrored.keyed).mpr ⟨n, found, kept, rfl⟩⟩

end DspPatch.Graph
