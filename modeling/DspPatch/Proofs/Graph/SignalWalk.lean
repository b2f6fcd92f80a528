import DspPatch.Graph.Traversal
import DspPatch.Proofs.Graph.Connections
import Mathlib.Data.List.Chain
import Mathlib.Data.List.Infix
import Mathlib.Logic.Relation

/-!
The signal walk. It lists exactly the nodes behind its roots, each once, and it fails only at a node whose sources cannot
be followed. Its order is that of a depth-first search: a source stands before the node it feeds, unless that node feeds
it in turn along connections that all lead forward in the order (`Listed.sourcesFirst`). The invariant behind this looks at
the nodes that are being entered as if they were listed already, from the innermost to the outermost.
-/
namespace DspPatch

theorem Search.unseen_cons_lt {labels seen : List String} {label : String} (inside : label ∈ labels)
    (fresh : label ∉ seen) : Search.unseen labels (label :: seen) < Search.unseen labels seen := by
  have same : Search.unseen labels (label :: seen) = Search.unseen labels (seen ++ [label]) := by
    unfold Search.unseen
    congr 2
    funext other
    simp [Bool.or_comm]
  exact same ▸ Search.unseen_append_lt inside fresh

/-- The error of a walk that would go deeper than any walk has to. -/
def CompileError.IsEndless : CompileError → Prop
  | .graph _ .endlessWalk => True
  | _ => False

namespace Graph
open Relation
variable {g : Graph} {explore : Node → Bool}

/-- The walk goes on from `v` to its signal source `u`. -/
def Explores (g : Graph) (explore : Node → Bool) (v u : String) : Prop :=
  ∃ n sources inlet, g.get? v = some n ∧ explore n = true ∧ signalSources n = .ok sources ∧ (inlet, u) ∈ sources

/-- The sources of a node are to be walked, but an inlet is not declared or a source is missing. -/
def Faulty (g : Graph) (explore : Node → Bool) (v : String) : Prop :=
  ∃ n, g.get? v = some n ∧ explore n = true ∧ ((∃ e, signalSources n = .error e) ∨
    ∃ sources inlet u, signalSources n = .ok sources ∧ (inlet, u) ∈ sources ∧ g.get? u = none)

/-- The walk goes from `y` to `x`, and `x` is listed before `y`. -/
def Forward (g : Graph) (explore : Node → Bool) (order : List String) (x y : String) : Prop :=
  g.Explores explore y x ∧ [x, y].Sublist order

theorem Forward.mono {order longer : List String} (sub : order.Sublist longer) {x y : String}
    (forward : g.Forward explore order x y) : g.Forward explore longer x y :=
  ⟨forward.1, forward.2.trans sub⟩

/-- What holds of the nodes `listed` so far while those of `path` are being entered, the innermost first. -/
structure Listed (g : Graph) (explore : Node → Bool) (path listed : List String) : Prop where
  nodup : listed.Nodup
  entered : ∀ v ∈ path, v ∉ listed
  known : ∀ v ∈ listed, ∃ n, g.get? v = some n
  sound : ∀ v ∈ listed, ¬g.Faulty explore v
  sourcesFirst : ∀ v ∈ listed, ∀ u, g.Explores explore v u →
    [u, v].Sublist listed ∨ ReflTransGen (g.Forward explore (listed ++ path)) v u

theorem mem_of_forward_chain {order : List String} {v u : String} (member : v ∈ order)
    (chain : ReflTransGen (g.Forward explore order) v u) : u ∈ order := by
  cases chain with
  | refl => exact member
  | tail _ last => exact last.2.subset (by simp)

/-- Sources of listed nodes are listed or being entered. -/
theorem Listed.source_mem {path listed : List String} (inv : g.Listed explore path listed) {v u : String}
    (member : v ∈ listed) (explores : g.Explores explore v u) : u ∈ listed ∨ u ∈ path := by
  rcases inv.sourcesFirst v member u explores with before | chain
  · exact .inl (before.subset (by simp))
  · exact List.mem_append.mp (mem_of_forward_chain (List.mem_append_left path member) chain)

/-- Along the nodes that are being entered, every one is a source of the next. -/
theorem forward_chain_of_path {before path : List String} {v u : String}
    (linked : List.IsChain (fun x y => g.Explores explore y x) (v :: path)) (member : u ∈ path) :
    ReflTransGen (g.Forward explore (before ++ v :: path)) v u := by
  induction path generalizing before v with
  | nil => cases member
  | cons w path ih =>
    rw [List.isChain_cons_cons] at linked
    have adjacent : [v, w].Sublist (before ++ v :: w :: path) :=
      ((List.nil_sublist path).cons_cons w).cons_cons v |>.trans (List.sublist_append_right before _)
    have step : g.Forward explore (before ++ v :: w :: path) v w := ⟨linked.1, adjacent⟩
    rcases List.mem_cons.mp member with rfl | later
    · exact .single step
    · refine .head step ?_
      have rest : ReflTransGen (g.Forward explore ((before ++ [v]) ++ w :: path)) w u := ih linked.2 later
      rwa [List.append_assoc, List.singleton_append] at rest

theorem Listed.enter {path listed : List String} (inv : g.Listed explore path listed) {v : String}
    (new : v ∉ listed) : g.Listed explore (v :: path) listed := by
  refine ⟨inv.nodup, ?_, inv.known, inv.sound, ?_⟩
  · intro w member
    rcases List.mem_cons.mp member with rfl | member
    · exact new
    · exact inv.entered w member
  · intro w member u explores
    refine (inv.sourcesFirst w member u explores).imp_right (fun chain => ?_)
    have sub : (listed ++ path).Sublist (listed ++ v :: path) :=
      List.Sublist.append_left (List.sublist_cons_self v path) listed
    exact ReflTransGen.mono (fun _ _ => Forward.mono sub) _ _ chain

/-- A node is listed when all its sources are listed or being entered. -/
theorem Listed.leave {path listed : List String} {v : String} (inv : g.Listed explore (v :: path) listed)
    (fresh : v ∉ path) (present : ∃ n, g.get? v = some n) (sound : ¬g.Faulty explore v)
    (linked : List.IsChain (fun x y => g.Explores explore y x) (v :: path))
    (sources : ∀ u, g.Explores explore v u → u ∈ listed ∨ u = v ∨ u ∈ path) :
    g.Listed explore path (listed ++ [v]) := by
  have new : v ∉ listed := inv.entered v List.mem_cons_self
  have inserted : listed ++ [v] ++ path = listed ++ v :: path := by rw [List.append_assoc, List.singleton_append]
  refine ⟨?_, ?_, ?_, ?_, ?_⟩
  · rw [List.nodup_append]
    refine ⟨inv.nodup, by simp, fun w member other single => ?_⟩
    rw [List.mem_singleton.mp single]
    exact fun same => new (same ▸ member)
  · intro w member
    rw [List.mem_append, List.mem_singleton, not_or]
    exact ⟨inv.entered w (List.mem_cons_of_mem v member), fun same => fresh (same ▸ member)⟩
  · intro w member
    rcases List.mem_append.mp member with member | single
    · exact inv.known w member
    · exact List.mem_singleton.mp single ▸ present
  · intro w member
    rcases List.mem_append.mp member with member | single
    · exact inv.sound w member
    · exact List.mem_singleton.mp single ▸ sound
  · intro w member u explores
    rw [inserted]
    rcases List.mem_append.mp member with member | single
    · exact (inv.sourcesFirst w member u explores).imp_left (fun before => before.trans (List.sublist_append_left _ _))
    · rw [List.mem_singleton.mp single] at explores ⊢
      rcases sources u explores with before | rfl | outer
      · exact .inl (List.Sublist.append (List.singleton_sublist.mpr before) (List.Sublist.refl [v]))
      · exact .inr .refl
      · exact .inr (forward_chain_of_path linked outer)

/-- What a walk from a root adds to the nodes that were listed before. -/
structure Walked (g : Graph) (explore : Node → Bool) (path done : List String) (root : String)
    (order : List String) : Prop where
  ordered : g.Listed explore path order
  kept : ∀ v ∈ done, v ∈ order
  rootListed : root ∈ order
  behind : ∀ v ∈ order, v ∈ done ∨ ReflTransGen (g.Explores explore) root v

/-- What the walk of the sources `seen` of `root` adds, while `root` itself is being entered. -/
structure SourcesWalked (g : Graph) (explore : Node → Bool) (path done : List String) (root : String)
    (seen : List (String × String)) (listed : List String) : Prop where
  ordered : g.Listed explore (root :: path) listed
  kept : ∀ v ∈ done, v ∈ listed
  covered : ∀ entry ∈ seen, entry.2 ∈ listed ∨ entry.2 = root ∨ entry.2 ∈ path
  present : ∀ entry ∈ seen, ∃ n, g.get? entry.2 = some n
  behind : ∀ v ∈ listed, v ∈ done ∨ ReflTransGen (g.Explores explore) root v

/-- The signal sources that one record of a node tells. -/
def recordSources (n : Node) (entry : String × List Endpoint) : Except CompileError (List (String × String)) := do
  let portlet ← n.inlet entry.1
  return if portlet.kind = .signal then entry.2.map (fun source => (entry.1, source.node)) else []

theorem signalSources_eq_ok_iff {n : Node} {list : List (String × String)} :
    signalSources n = .ok list ↔
      ∃ groups, List.Forall₂ (fun entry group => recordSources n entry = .ok group) n.sources.entries groups ∧
        groups.flatten = list := by
  show (n.sources.entries.mapM (recordSources n) >>= fun groups => pure groups.flatten) = .ok list ↔ _
  rw [bind_eq_ok_iff]
  simp only [mapM_eq_ok_iff, pure, Except.pure, Except.ok.injEq]

/-- The sources of a node can be read if every inlet that has some is declared. -/
theorem exists_signalSources_iff {n : Node} :
    (∃ list, signalSources n = .ok list) ↔ ∀ inlet ∈ n.sources.keys, inlet ∈ n.inlets.keys := by
  constructor
  · rintro ⟨list, read⟩ inlet member
    obtain ⟨groups, related, rfl⟩ := signalSources_eq_ok_iff.mp read
    obtain ⟨entry, listed, rfl⟩ := List.mem_map.mp member
    obtain ⟨group, _, groupRead⟩ := exists_right_of_forall₂ related listed
    obtain ⟨p, declared, _⟩ := bind_eq_ok_iff.mp groupRead
    exact Table.mem_keys_of_get? (Node.inlet_eq_ok_iff.mp declared)
  · intro declared
    have each : ∀ entry ∈ n.sources.entries, ∃ group, recordSources n entry = .ok group := by
      intro entry listed
      obtain ⟨p, found⟩ := Table.mem_keys_iff.mp (declared entry.1 (List.mem_map_of_mem listed))
      exact ⟨_, bind_eq_ok_iff.mpr ⟨p, Node.inlet_eq_ok_iff.mpr found, rfl⟩⟩
    obtain ⟨groups, read⟩ := exists_mapM_ok each
    exact ⟨groups.flatten, signalSources_eq_ok_iff.mpr ⟨groups, mapM_eq_ok_iff.mp read, rfl⟩⟩

/-- What is read are the sources of the signal inlets. -/
theorem exists_mem_signalSources_iff {n : Node} {list : List (String × String)} (read : signalSources n = .ok list)
    {u : String} : (∃ inlet, (inlet, u) ∈ list) ↔
      ∃ inlet p, n.inlets.get? inlet = some p ∧ p.kind = .signal ∧ ∃ source ∈ n.sourcesOf inlet, source.node = u := by
  obtain ⟨groups, related, rfl⟩ := signalSources_eq_ok_iff.mp read
  constructor
  · rintro ⟨inlet, member⟩
    obtain ⟨group, groupListed, inside⟩ := List.mem_flatten.mp member
    obtain ⟨entry, listed, groupRead⟩ := exists_left_of_forall₂ related groupListed
    obtain ⟨p, declared, same⟩ := bind_eq_ok_iff.mp groupRead
    cases same
    split at inside
    next signal =>
      obtain ⟨source, sourceListed, same⟩ := List.mem_map.mp inside
      cases same
      exact ⟨entry.1, p, Node.inlet_eq_ok_iff.mp declared, signal, source,
        Node.mem_sourcesOf_iff.mpr ⟨entry.2, listed, sourceListed⟩, rfl⟩
    next => cases inside
  · rintro ⟨inlet, p, declared, signal, source, recorded, rfl⟩
    obtain ⟨sources, listed, member⟩ := Node.mem_sourcesOf_iff.mp recorded
    obtain ⟨group, groupListed, groupRead⟩ := exists_right_of_forall₂ related listed
    obtain ⟨q, qDeclared, same⟩ := bind_eq_ok_iff.mp groupRead
    cases declared.symm.trans (Node.inlet_eq_ok_iff.mp qDeclared)
    cases same
    rw [if_pos signal] at groupListed
    exact ⟨inlet, List.mem_flatten.mpr ⟨_, groupListed, List.mem_map.mpr ⟨source, member, rfl⟩⟩⟩

theorem signalSources_not_endless (n : Node) : Yields (signalSources n) (fun _ => True) (fun e => ¬e.IsEndless) := by
  have inlets : ∀ inlet, Yields (n.inlet inlet) (fun _ => True) (fun e => ¬e.IsEndless) := by
    intro inlet
    unfold Node.inlet
    cases n.inlets.get? inlet with
    | some portlet => trivial
    | none => exact not_false
  have each : ∀ entry ∈ n.sources.entries, Yields (recordSources n entry) (fun _ => True) (fun e => ¬e.IsEndless) :=
    fun entry _ => (inlets entry.1).bind (fun _ _ => trivial)
  exact (Yields.mapM each).bind (fun _ _ => trivial)

/-- The sources that the walk looks at. -/
private theorem sources_yields {n : Node} (found : g.get? n.id = some n) :
    Yields (if explore n then signalSources n else pure [])
      (fun sources => (∀ u, g.Explores explore n.id u ↔ ∃ inlet, (inlet, u) ∈ sources) ∧
        (g.Faulty explore n.id ↔ ∃ inlet u, (inlet, u) ∈ sources ∧ g.get? u = none))
      (fun e => ¬e.IsEndless ∧ g.Faulty explore n.id) := by
  by_cases explored : explore n = true
  · rw [if_pos explored]
    cases result : signalSources n with
    | error e => exact ⟨(signalSources_not_endless n).of_eq_error result, n, found, explored, .inl ⟨e, result⟩⟩
    | ok sources =>
      refine ⟨fun u => ⟨?_, ?_⟩, ⟨?_, ?_⟩⟩
      · rintro ⟨m, list, inlet, mFound, _, listed, member⟩
        cases found.symm.trans mFound
        cases result.symm.trans listed
        exact ⟨inlet, member⟩
      · rintro ⟨inlet, member⟩
        exact ⟨n, sources, inlet, found, explored, result, member⟩
      · rintro ⟨m, mFound, _, ⟨e, failed⟩ | ⟨list, inlet, u, listed, member, missing⟩⟩
        · cases found.symm.trans mFound
          cases result.symm.trans failed
        · cases found.symm.trans mFound
          cases result.symm.trans listed
          exact ⟨inlet, u, member, missing⟩
      · rintro ⟨inlet, u, member, missing⟩
        exact ⟨n, found, explored, .inr ⟨sources, inlet, u, result, member, missing⟩⟩
  · rw [if_neg explored]
    refine ⟨fun u => ⟨?_, ?_⟩, ⟨?_, ?_⟩⟩
    · rintro ⟨m, _, _, mFound, wanted, _⟩
      cases found.symm.trans mFound
      exact absurd wanted explored
    · rintro ⟨inlet, member⟩
      cases member
    · rintro ⟨m, mFound, wanted, _⟩
      cases found.symm.trans mFound
      exact absurd wanted explored
    · rintro ⟨inlet, u, member, _⟩
      cases member

/-- One source of `n` on the walk: it is skipped if it is listed or being entered, else it is walked. -/
def walkSource (g : Graph) (explore : Node → Bool) (depth : Nat) (path : List String) (n : Node) (listed : List String)
    (entry : String × String) : Except CompileError (List String) :=
  match g.get? entry.2 with
  | none => .error (.graph (.atPortlet n.id entry.1) (.missingSource entry.2))
  | some source =>
    if entry.2 ∈ listed ∨ entry.2 = n.id ∨ entry.2 ∈ path then .ok listed
    else g.walkFrom explore depth (n.id :: path) source listed

theorem walkFrom_succ (g : Graph) (explore : Node → Bool) (depth : Nat) (path : List String) (n : Node)
    (done : List String) : g.walkFrom explore (depth + 1) path n done = (do
      let sources ← (if explore n then signalSources n else pure [])
      let listed ← sources.foldlM (g.walkSource explore depth path n) done
      return listed ++ [n.id]) := by
  rw [walkFrom]
  split <;> rfl

/-- A walk lists what is behind its root, or it comes to a node whose sources cannot be followed. The nodes that are not
    being entered bound its depth, so it does not end for want of depth. -/
theorem walkFrom_yields (keyed : ∀ {key n}, g.get? key = some n → n.id = key) (depth : Nat) {path done : List String}
    {n : Node} (found : g.get? n.id = some n) (enough : Search.unseen g.nodes.keys path ≤ depth) (fresh : n.id ∉ path)
    (new : n.id ∉ done) (linked : List.IsChain (fun x y => g.Explores explore y x) (n.id :: path))
    (inv : g.Listed explore path done) :
    Yields (g.walkFrom explore depth path n done) (g.Walked explore path done n.id)
      (fun e => ¬e.IsEndless ∧ ∃ v, ReflTransGen (g.Explores explore) n.id v ∧ g.Faulty explore v) := by
  have less := Search.unseen_cons_lt (Table.mem_keys_iff.mpr ⟨n, found⟩) fresh
  induction depth generalizing path done n with
  | zero => omega
  | succ depth ih =>
    rw [walkFrom_succ]
    have looked : Yields (if explore n then signalSources n else pure []) _
        (fun e => ¬e.IsEndless ∧ ∃ v, ReflTransGen (g.Explores explore) n.id v ∧ g.Faulty explore v) :=
      (sources_yields found).mono (fun _ post => post) (fun _ bad => ⟨bad.1, n.id, .refl, bad.2⟩)
    refine Yields.bind looked ?_
    rintro sources ⟨explores, faulty⟩
    refine Yields.bind (Yields.foldlM (g.SourcesWalked explore path done n.id) ?_ ?_) ?_
    · exact ⟨inv.enter new, fun _ member => member, List.forall_mem_nil _, List.forall_mem_nil _,
        fun _ member => .inl member⟩
    · rintro seen ⟨inlet, id⟩ rest listed split walk
      have member : (inlet, id) ∈ sources := by simp [split]
      have explored : g.Explores explore n.id id := (explores id).mpr ⟨inlet, member⟩
      rw [walkSource]
      cases source : g.get? id with
      | none => exact ⟨not_false, n.id, .refl, faulty.mpr ⟨inlet, id, member, source⟩⟩
      | some sourceNode =>
        obtain rfl : sourceNode.id = id := keyed source
        have present : ∀ entry ∈ seen ++ [(inlet, sourceNode.id)], ∃ m, g.get? entry.2 = some m := by
          intro entry listedEntry
          rcases List.mem_append.mp listedEntry with earlier | last
          · exact walk.present entry earlier
          · rw [List.mem_singleton.mp last]
            exact ⟨sourceNode, source⟩
        by_cases known : sourceNode.id ∈ listed ∨ sourceNode.id = n.id ∨ sourceNode.id ∈ path
        · simp only [known, if_true]
          refine ⟨walk.ordered, walk.kept, fun entry listedEntry => ?_, present, walk.behind⟩
          rcases List.mem_append.mp listedEntry with earlier | last
          · exact walk.covered entry earlier
          · rw [List.mem_singleton.mp last]
            exact known
        · simp only [known, if_false]
          rw [not_or, not_or] at known
          have outside : sourceNode.id ∉ n.id :: path := by simp [known.2.1, known.2.2]
          have lessNow := Search.unseen_cons_lt (Table.mem_keys_iff.mpr ⟨sourceNode, source⟩) outside
          have chained : List.IsChain (fun x y => g.Explores explore y x) (sourceNode.id :: n.id :: path) :=
            List.isChain_cons_cons.mpr ⟨explored, linked⟩
          refine (ih source (by omega) outside known.1 chained walk.ordered lessNow).mono ?_ ?_
          · intro order walked
            refine ⟨walked.ordered, fun v old => walked.kept v (walk.kept v old), ?_, present, fun v listedNow => ?_⟩
            · intro entry listedEntry
              rcases List.mem_append.mp listedEntry with earlier | last
              · exact (walk.covered entry earlier).imp_left (walked.kept entry.2)
              · rw [List.mem_singleton.mp last]
                exact .inl walked.rootListed
            · rcases walked.behind v listedNow with old | reached
              · exact walk.behind v old
              · exact .inr (.head explored reached)
          · rintro _ ⟨ends, v, reached, faulty⟩
            exact ⟨ends, v, .head explored reached, faulty⟩
    · intro listed walk
      have sound : ¬g.Faulty explore n.id := by
        intro bad
        obtain ⟨inlet, u, member, missing⟩ := faulty.mp bad
        obtain ⟨m, mFound⟩ := walk.present (inlet, u) member
        cases missing.symm.trans mFound
      refine ⟨walk.ordered.leave fresh ⟨n, found⟩ sound linked ?_, fun v old => ?_, by simp, fun v member => ?_⟩
      · intro u explored
        obtain ⟨inlet, member⟩ := (explores u).mp explored
        exact walk.covered (inlet, u) member
      · exact List.mem_append_left _ (walk.kept v old)
      · rcases List.mem_append.mp member with member | single
        · exact walk.behind v member
        · rw [List.mem_singleton.mp single]
          exact .inr .refl

/-- The nodes of a finished walk: exactly those behind the roots, each once, in depth-first order. The sources of all of
    them could be followed. -/
structure SignalOrder (g : Graph) (explore : Node → Bool) (roots order : List String) : Prop where
  nodup : order.Nodup
  mem_iff : ∀ v, v ∈ order ↔ ∃ root ∈ roots, ReflTransGen (g.Explores explore) root v
  known : ∀ v ∈ order, ∃ n, g.get? v = some n
  sound : ∀ v ∈ order, ¬g.Faulty explore v
  sourcesFirst : ∀ v ∈ order, ∀ u, g.Explores explore v u →
    [u, v].Sublist order ∨ ReflTransGen (g.Forward explore order) v u

/-- What walks from the first roots have listed. -/
structure RootsWalked (g : Graph) (explore : Node → Bool) (roots order : List String) : Prop where
  ordered : g.Listed explore [] order
  rootsListed : ∀ root ∈ roots, root ∈ order
  behind : ∀ v ∈ order, ∃ root ∈ roots, ReflTransGen (g.Explores explore) root v

theorem RootsWalked.signalOrder {roots order : List String} (walked : g.RootsWalked explore roots order) :
    g.SignalOrder explore roots order := by
  refine ⟨walked.ordered.nodup, fun v => ⟨walked.behind v, ?_⟩, walked.ordered.known, walked.ordered.sound, ?_⟩
  · rintro ⟨root, member, reached⟩
    induction reached with
    | refl => exact walked.rootsListed root member
    | tail _ explores ih => simpa using walked.ordered.source_mem ih explores
  · simpa using walked.ordered.sourcesFirst

theorem unseen_nil_le_walkDepth (g : Graph) : Search.unseen g.nodes.keys [] ≤ g.walkDepth := by
  have bound : Search.unseen g.nodes.keys [] ≤ g.nodes.keys.length := List.length_filter_le _ _
  have count : g.nodes.keys.length = g.size := List.length_map _
  have square : g.size + 1 ≤ (g.size + 1) * (g.size + 1) := Nat.le_mul_of_pos_right _ (Nat.succ_pos _)
  unfold walkDepth
  omega

/-- The walk from a list of roots succeeds with the nodes behind them in depth-first order, or a root is missing, or some
    node behind them has sources that cannot be followed. It never ends for want of depth. -/
theorem signalTraversal_outcome (keyed : ∀ {key n}, g.get? key = some n → n.id = key) (explore : Node → Bool)
    (roots : List String) :
    Yields (g.signalTraversal explore roots) (g.SignalOrder explore roots)
      (fun e => ¬e.IsEndless ∧ ∃ root ∈ roots, g.get? root = none ∨
        ∃ v, ReflTransGen (g.Explores explore) root v ∧ g.Faulty explore v) := by
  refine Yields.mono (Yields.foldlM (g.RootsWalked explore) ?_ ?_) (fun _ => RootsWalked.signalOrder) (fun _ bad => bad)
  · exact ⟨⟨List.nodup_nil, List.forall_mem_nil _, List.forall_mem_nil _, List.forall_mem_nil _, List.forall_mem_nil _⟩,
      List.forall_mem_nil _, List.forall_mem_nil _⟩
  · intro seen root rest done split walked
    have member : root ∈ roots := by simp [split]
    have looked : Yields (g.node root) (fun n => g.get? root = some n) (fun e => ¬e.IsEndless ∧ ∃ root ∈ roots,
        g.get? root = none ∨ ∃ v, ReflTransGen (g.Explores explore) root v ∧ g.Faulty explore v) := by
      unfold Graph.node
      cases found : g.get? root with
      | some n => rfl
      | none => exact ⟨not_false, root, member, .inl found⟩
    refine Yields.bind looked (fun n found => ?_)
    obtain rfl : n.id = root := keyed found
    have wider : ∀ v ∈ done, ∃ root ∈ seen ++ [n.id], ReflTransGen (g.Explores explore) root v := by
      intro v old
      obtain ⟨root, earlier, reached⟩ := walked.behind v old
      exact ⟨root, List.mem_append_left _ earlier, reached⟩
    by_cases known : n.id ∈ done
    · simp only [known, if_true]
      refine ⟨walked.ordered, fun root listed => ?_, wider⟩
      rcases List.mem_append.mp listed with earlier | last
      · exact walked.rootsListed root earlier
      · exact List.mem_singleton.mp last ▸ known
    · simp only [known, if_false]
      refine (walkFrom_yields keyed g.walkDepth found g.unseen_nil_le_walkDepth List.not_mem_nil known (List.isChain_singleton _)
        walked.ordered).mono ?_ ?_
      · intro order new
        refine ⟨new.ordered, fun root listed => ?_, fun v listed => ?_⟩
        · rcases List.mem_append.mp listed with earlier | last
          · exact new.kept root (walked.rootsListed root earlier)
          · exact List.mem_singleton.mp last ▸ new.rootListed
        · rcases new.behind v listed with old | reached
          · exact wider v old
          · exact ⟨n.id, by simp, reached⟩
      · rintro _ ⟨ends, v, reached, faulty⟩
        exact ⟨ends, n.id, member, .inr ⟨v, reached, faulty⟩⟩

theorem signalTraversal_yields (keyed : ∀ {key n}, g.get? key = some n → n.id = key) (explore : Node → Bool)
    (roots : List String) :
    Yields (g.signalTraversal explore roots) (g.SignalOrder explore roots)
      (fun _ => ∃ root ∈ roots, g.get? root = none ∨
        ∃ v, ReflTransGen (g.Explores explore) root v ∧ g.Faulty explore v) :=
  (signalTraversal_outcome keyed explore roots).mono (fun _ order => order) (fun _ bad => bad.2)

/-- In a well-formed graph the sources of a node can be read off its signal inlets. -/
theorem signalSources_wellFormed (wf : g.WellFormed) {v : String} {n : Node} (found : g.get? v = some n) :
    ∃ list, signalSources n = .ok list ∧ ∀ u, (∃ inlet, (inlet, u) ∈ list) ↔ g.Feeds .signal u v := by
  obtain ⟨list, read⟩ := exists_signalSources_iff.mpr (wf.inletDeclared found)
  refine ⟨list, read, fun u => (exists_mem_signalSources_iff read).trans ⟨?_, ?_⟩⟩
  · rintro ⟨inlet, p, declared, signal, source, recorded, rfl⟩
    exact ⟨source.portlet, inlet, (connects_iff_source wf).mpr ⟨n, p, found, declared, signal, recorded⟩⟩
  · rintro ⟨outlet, inlet, connects⟩
    obtain ⟨m, p, mFound, declared, signal, recorded⟩ := (connects_iff_source wf).mp connects
    cases found.symm.trans mFound
    exact ⟨inlet, p, declared, signal, ⟨u, outlet⟩, recorded, rfl⟩

theorem explores_iff_feeds (wf : g.WellFormed) {v u : String} :
    g.Explores (fun _ => true) v u ↔ g.Feeds .signal u v := by
  constructor
  · rintro ⟨n, sources, inlet, found, _, result, member⟩
    obtain ⟨list, listResult, feeds⟩ := signalSources_wellFormed wf found
    cases result.symm.trans listResult
    exact (feeds u).mp ⟨inlet, member⟩
  · intro feeds
    obtain ⟨n, found⟩ := feeds.sink_exists wf
    obtain ⟨list, result, listed⟩ := signalSources_wellFormed wf found
    obtain ⟨inlet, member⟩ := (listed u).mpr feeds
    exact ⟨n, list, inlet, found, rfl, result, member⟩

/-- In a well-formed graph the walk from existing roots succeeds. -/
theorem signalTraversal_wellFormed (wf : g.WellFormed) {roots : List String}
    (present : ∀ root ∈ roots, ∃ n, g.get? root = some n) :
    ∃ order, g.signalTraversal (fun _ => true) roots = .ok order ∧ g.SignalOrder (fun _ => true) roots order := by
  refine Yields.exists_ok ((signalTraversal_yields wf.keyed (fun _ => true) roots).mono (fun _ post => post) ?_)
  rintro _ ⟨root, member, missing | ⟨v, _, n, found, _, ⟨e, failed⟩ | ⟨sources, inlet, u, result, listed, missing⟩⟩⟩
  · obtain ⟨n, found⟩ := present root member
    rw [missing] at found
    cases found
  · obtain ⟨list, result, _⟩ := signalSources_wellFormed wf found
    rw [failed] at result
    cases result
  · obtain ⟨list, listResult, feeds⟩ := signalSources_wellFormed wf found
    cases result.symm.trans listResult
    obtain ⟨m, mFound⟩ := ((feeds u).mp ⟨inlet, listed⟩).source_exists
    rw [missing] at mFound
    cases mFound

end Graph
end DspPatch
