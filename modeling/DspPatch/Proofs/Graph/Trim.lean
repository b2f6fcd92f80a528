import DspPatch.Graph.Trim
import DspPatch.Proofs.Graph.Connections

/-!
Trimming restricts a graph to some of its nodes: what is left are these nodes and the connections between them, in the
order of the graph, and a well-formed graph stays well-formed.
-/
namespace DspPatch.Graph
variable {g : Graph} {keep : List String}

theorem entries_keepEnds (keep : List String) (ends : Table (List Endpoint)) :
    (keepEnds keep ends).entries =
      (ends.entries.map (fun entry => (entry.1, entry.2.filter (fun e => e.node ∈ keep)))).filter
        (fun entry => !entry.2.isEmpty) := rfl

private theorem get?_keepEnds (keep : List String) (ends : Table (List Endpoint)) (portlet : String) :
    ((keepEnds keep ends).get? portlet).getD [] =
      ((ends.get? portlet).getD []).filter (fun e => e.node ∈ keep) := by
  cases kept : (keepEnds keep ends).get? portlet with
  | some list =>
    obtain ⟨mapped, _⟩ := (Table.get?_filter _ _ _ _).mp kept
    rw [Table.get?_map, Option.map_eq_some_iff] at mapped
    obtain ⟨all, found, rfl⟩ := mapped
    simp [found]
  | none =>
    cases found : ends.get? portlet with
    | none => rfl
    | some all =>
      by_contra different
      have nonempty : all.filter (fun e => e.node ∈ keep) ≠ [] := fun empty => different empty.symm
      have listed : (keepEnds keep ends).get? portlet = some (all.filter (fun e => e.node ∈ keep)) := by
        refine (Table.get?_filter _ _ _ _).mpr ⟨by rw [Table.get?_map, found]; rfl, ?_⟩
        rw [Bool.not_eq_true', List.isEmpty_eq_false_iff]
        exact nonempty
      rw [kept] at listed
      cases listed

theorem sinksOf_trimNode (keep : List String) (n : Node) (outlet : String) :
    (trimNode keep n).sinksOf outlet = (n.sinksOf outlet).filter (fun e => e.node ∈ keep) :=
  get?_keepEnds keep n.sinks outlet

theorem sourcesOf_trimNode (keep : List String) (n : Node) (inlet : String) :
    (trimNode keep n).sourcesOf inlet = (n.sourcesOf inlet).filter (fun e => e.node ∈ keep) :=
  get?_keepEnds keep n.sources inlet

theorem mem_keys_keepEnds {ends : Table (List Endpoint)} {portlet : String}
    (kept : portlet ∈ (keepEnds keep ends).keys) : portlet ∈ ends.keys := by
  obtain ⟨list, found⟩ := Table.mem_keys_iff.mp kept
  obtain ⟨mapped, _⟩ := (Table.get?_filter _ _ _ _).mp found
  rw [Table.get?_map, Option.map_eq_some_iff] at mapped
  obtain ⟨all, present, _⟩ := mapped
  exact Table.mem_keys_iff.mpr ⟨all, present⟩

/-- A trimmed graph has every node under its own id. -/
theorem keyed_trim (g : Graph) (keep : List String) {key : String} {n : Node} (found : (g.trim keep).get? key = some n) :
    n.id = key := by
  suffices general : ∀ (list : List Node) (start : Graph), (∀ key n, start.get? key = some n → n.id = key) →
      ∀ key n, (list.foldl insert start).get? key = some n → n.id = key from
    general _ empty (fun _ _ stored => by cases stored) key n found
  intro list
  induction list with
  | nil => exact fun _ keyed => keyed
  | cons first rest ih =>
    refine fun start keyed => ih (start.insert first) (fun key n stored => ?_)
    unfold get? insert at stored
    rw [Table.get?_insert] at stored
    split at stored
    next same =>
      cases stored
      exact same.symm
    next => exact keyed key n stored

/-- The kept nodes stand in the order of the graph. -/
theorem entries_trim (keyed : ∀ {key n}, g.get? key = some n → n.id = key) (keep : List String) :
    (g.trim keep).nodes.entries =
      (g.nodes.entries.filter (fun entry => entry.1 ∈ keep)).map (fun entry => (entry.1, trimNode keep entry.2)) := by
  have inserted : ∀ (list : List Node) (start : Graph), (list.foldl insert start).nodes =
      (list.map (fun n => (n.id, n))).foldl (fun t entry => t.insert entry.1 entry.2) start.nodes := by
    intro list
    induction list with
    | nil => exact fun _ => rfl
    | cons n list ih => exact fun start => ih (start.insert n)
  have labelled : ((g.nodes.filter (fun key _ => key ∈ keep)).values.map (trimNode keep)).map (fun n => (n.id, n)) =
      (g.nodes.entries.filter (fun entry => entry.1 ∈ keep)).map (fun entry => (entry.1, trimNode keep entry.2)) := by
    simp only [Table.values, Table.filter, List.map_map]
    refine List.map_congr_left (fun entry member => ?_)
    have found := Table.get?_eq_some_iff.mpr (List.mem_filter.mp member).1
    simp [trimNode, keyed found]
  rw [trim, inserted, labelled]
  refine Table.entries_ofList ?_
  rw [List.map_map]
  exact List.Nodup.sublist (List.Sublist.map Prod.fst List.filter_sublist) g.nodes.nodup

theorem get?_trim (keyed : ∀ {key n}, g.get? key = some n → n.id = key) {key : String} {n : Node} :
    (g.trim keep).get? key = some n ↔ ∃ full, g.get? key = some full ∧ key ∈ keep ∧ trimNode keep full = n := by
  unfold get?
  rw [Table.get?_eq_some_iff, entries_trim keyed]
  simp only [List.mem_map, List.mem_filter, Table.get?_eq_some_iff, decide_eq_true_eq]
  constructor
  · rintro ⟨⟨k, full⟩, ⟨entry, kept⟩, same⟩
    cases same
    exact ⟨full, entry, kept, rfl⟩
  · rintro ⟨full, entry, kept, rfl⟩
    exact ⟨(key, full), ⟨entry, kept⟩, rfl⟩

/-- A record that is emptied by the first trimming would be emptied by the second. -/
theorem keepEnds_keepEnds (keep others : List String) (ends : Table (List Endpoint)) :
    keepEnds others (keepEnds keep ends) = keepEnds (keep.filter (fun id => id ∈ others)) ends := by
  have twice : ∀ list : List Endpoint, (list.filter (fun e => e.node ∈ keep)).filter (fun e => e.node ∈ others) =
      list.filter (fun e => e.node ∈ keep.filter (fun id => id ∈ others)) := by
    intro list
    simp only [List.filter_filter, List.mem_filter, decide_eq_true_eq, Bool.decide_and, Bool.and_comm]
  have emptied : ∀ list : List Endpoint,
      ((!(list.filter (fun e => e.node ∈ keep.filter (fun id => id ∈ others))).isEmpty) &&
        !(list.filter (fun e => e.node ∈ keep)).isEmpty) =
      !(list.filter (fun e => e.node ∈ keep.filter (fun id => id ∈ others))).isEmpty := by
    intro list
    rw [← twice]
    cases list.filter (fun e => e.node ∈ keep) <;> simp
  apply Table.ext
  simp only [entries_keepEnds, List.filter_map, List.filter_filter, List.map_map, Function.comp_def, twice, emptied]

/-- Trimming twice keeps the nodes that are kept both times. -/
theorem trim_trim_inter (keyed : ∀ {key n}, g.get? key = some n → n.id = key) (keep others : List String) :
    (g.trim keep).trim others = g.trim (keep.filter (fun id => id ∈ others)) := by
  have trimmed : ∀ n, trimNode others (trimNode keep n) = trimNode (keep.filter (fun id => id ∈ others)) n := by
    intro n
    simp only [trimNode, keepEnds_keepEnds]
  apply Graph.ext
  apply Table.ext
  rw [entries_trim (keyed_trim g keep), entries_trim keyed, entries_trim keyed, List.filter_map, List.filter_filter,
    List.map_map]
  simp only [Function.comp_def, trimmed, List.mem_filter, decide_eq_true_eq, Bool.decide_and, Bool.and_comm]

theorem mirrored_trim (mirrored : g.Mirrored) (keep : List String) : (g.trim keep).Mirrored := by
  have untrim : ∀ {key n}, (g.trim keep).get? key = some n →
      ∃ full, g.get? key = some full ∧ key ∈ keep ∧ trimNode keep full = n := (get?_trim mirrored.keyed).mp
  constructor
  · intro key n found
    obtain ⟨full, present, _, rfl⟩ := untrim found
    show full.id = key
    exact mirrored.keyed present
  · intro u n found outlet member
    obtain ⟨full, present, _, rfl⟩ := untrim found
    exact mirrored.outletDeclared present outlet (mem_keys_keepEnds member)
  · intro v n found inlet member
    obtain ⟨full, present, _, rfl⟩ := untrim found
    exact mirrored.inletDeclared present inlet (mem_keys_keepEnds member)
  · intro u n found outlet sink listed
    obtain ⟨full, present, _, rfl⟩ := untrim found
    rw [sinksOf_trimNode, List.mem_filter, decide_eq_true_eq] at listed
    obtain ⟨target, targetFound, declared⟩ := mirrored.sinkDeclared present outlet sink listed.1
    exact ⟨trimNode keep target, (get?_trim mirrored.keyed).mpr ⟨target, targetFound, listed.2, rfl⟩, declared⟩
  · intro v n found inlet source listed
    obtain ⟨full, present, _, rfl⟩ := untrim found
    rw [sourcesOf_trimNode, List.mem_filter, decide_eq_true_eq] at listed
    obtain ⟨origin, originFound, declared⟩ := mirrored.sourceDeclared present inlet source listed.1
    exact ⟨trimNode keep origin, (get?_trim mirrored.keyed).mpr ⟨origin, originFound, listed.2, rfl⟩, declared⟩
  · intro u n v m uFound vFound outlet inlet
    obtain ⟨uFull, uPresent, uKept, rfl⟩ := untrim uFound
    obtain ⟨vFull, vPresent, vKept, rfl⟩ := untrim vFound
    simp [sinksOf_trimNode, sourcesOf_trimNode, uKept, vKept, mirrored.mirror uPresent vPresent]

theorem wellFormed_trim (wf : g.WellFormed) (keep : List String) : (g.trim keep).WellFormed := by
  have untrim : ∀ {key n}, (g.trim keep).get? key = some n →
      ∃ full, g.get? key = some full ∧ key ∈ keep ∧ trimNode keep full = n := (get?_trim wf.keyed).mp
  refine ⟨mirrored_trim wf.toMirrored keep, ?_, ?_, ?_⟩
  · intro v n found inlet p declared
    obtain ⟨full, present, _, rfl⟩ := untrim found
    exact wf.inletId present declared
  · intro u n found outlet p declared
    obtain ⟨full, present, _, rfl⟩ := untrim found
    exact wf.outletId present declared
  · intro u n found outlet p declared sink listed target q targetFound targetDeclared
    obtain ⟨full, present, _, rfl⟩ := untrim found
    obtain ⟨targetFull, targetPresent, _, rfl⟩ := untrim targetFound
    rw [sinksOf_trimNode, List.mem_filter] at listed
    exact wf.sameKind present declared sink listed.1 targetPresent targetDeclared

/-- Trimming keeps exactly the connections between kept nodes. -/
theorem connects_trim_iff (wf : g.WellFormed) {kind : PortletKind} {c : Connection} :
    (g.trim keep).Connects kind c ↔ g.Connects kind c ∧ c.source.node ∈ keep ∧ c.sink.node ∈ keep := by
  constructor
  · rintro ⟨n, p, found, declared, same, listed⟩
    obtain ⟨full, present, kept, rfl⟩ := (get?_trim wf.keyed).mp found
    rw [sinksOf_trimNode, List.mem_filter, decide_eq_true_eq] at listed
    exact ⟨⟨full, p, present, declared, same, listed.1⟩, kept, listed.2⟩
  · rintro ⟨⟨n, p, found, declared, same, listed⟩, sourceKept, sinkKept⟩
    refine ⟨trimNode keep n, p, (get?_trim wf.keyed).mpr ⟨n, found, sourceKept, rfl⟩, declared, same, ?_⟩
    rw [sinksOf_trimNode, List.mem_filter, decide_eq_true_eq]
    exact ⟨listed, sinkKept⟩

theorem feeds_trim_iff (wf : g.WellFormed) {kind : PortletKind} {u v : String} :
    (g.trim keep).Feeds kind u v ↔ g.Feeds kind u v ∧ u ∈ keep ∧ v ∈ keep := by
  constructor
  · rintro ⟨outlet, inlet, connects⟩
    obtain ⟨whole, uKept, vKept⟩ := (connects_trim_iff wf).mp connects
    exact ⟨⟨outlet, inlet, whole⟩, uKept, vKept⟩
  · rintro ⟨⟨outlet, inlet, connects⟩, uKept, vKept⟩
    exact ⟨outlet, inlet, (connects_trim_iff wf).mpr ⟨connects, uKept, vKept⟩⟩

end DspPatch.Graph
