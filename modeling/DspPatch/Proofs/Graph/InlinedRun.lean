import DspPatch.Proofs.Graph.Interpretation

/-!
A run without the inlined nodes simulates the run with them. The invariant of one pass over a traversal: all other nodes
have the same outlets, all nodes have the same state, and an inlined node that the full run has passed holds, until its
value has been used, what computing it on the spot gives.
-/
namespace DspPatch.Interpretation
open DspPatch.Graph
variable {V S : Type} {I : Interpretation V S} {g : Graph} {order inlined : List String}

/-- The stores agree on all states and on the outlets of the nodes that are not inlined. -/
structure Agrees (inlined : List String) (full short : Store V S) : Prop where
  outlets : ∀ e, e.node ∉ inlined → full.outlets e = short.outlets e
  states : full.states = short.states

/-- A traversal in which every inlined node has its sink at its side. -/
structure Undivided (g : Graph) (order inlined traversal : List String) : Prop where
  sublist : traversal.Sublist order
  together : ∀ u ∈ inlined, ∀ v, g.Feeds .signal u v → (u ∈ traversal ↔ v ∈ traversal)

/-- The state of the two runs after the nodes `done`. -/
structure Simulates (I : Interpretation V S) (g : Graph) (inlined done : List String) (full short : Store V S) : Prop where
  agrees : Agrees inlined full short
  pending : ∀ u ∈ inlined, u ∈ done → ∀ final, g.UsedAt inlined u final → final ∉ done →
    ∀ outlet, full.outlets ⟨u, outlet⟩ = I.readInlined g short inlined ⟨u, outlet⟩

/-- Both runs read the same values at a node whose inlined sources are pending. -/
theorem Simulates.inletValues (wf : g.WellFormed) {done : List String} {full short : Store V S}
    (simulates : Simulates I g inlined done full short) {id final : String}
    (sources : ∀ u ∈ inlined, g.Feeds .signal u id → u ∈ done ∧ g.UsedAt inlined u final) (ahead : final ∉ done) :
    I.inletValues g full.outlets id = I.inletValues g (I.readInlined g short inlined) id := by
  refine inletValues_congr wf (fun e feeds => ?_)
  by_cases own : e.node ∈ inlined
  · obtain ⟨passed, used⟩ := sources e.node own feeds
    exact simulates.pending e.node own passed final used ahead e.portlet
  · rw [readInlined_of_not_mem own]
    exact simulates.agrees.outlets e own

/-- The value of an inlined node depends on the states of inlined nodes and on the sources that it and the inlined nodes
    before it have. -/
theorem readInlined_store_congr (fits : g.Inlinable order inlined) {done : List String} {final : String}
    (closed : ∀ u ∈ done, u ∈ inlined → ∀ w ∈ inlined, g.Feeds .signal w u → w ∈ done) {left right : Store V S}
    (states : ∀ u ∈ inlined, left.states u = right.states u)
    (outlets : ∀ u ∈ done, g.UsedAt inlined u final → ∀ e : Endpoint, e.node ∉ inlined → g.Feeds .signal e.node u →
      left.outlets e = right.outlets e)
    {u : String} (member : u ∈ done) (own : u ∈ inlined) (used : g.UsedAt inlined u final) (outlet : String) :
    I.readInlined g left inlined ⟨u, outlet⟩ = I.readInlined g right inlined ⟨u, outlet⟩ := by
  generalize place : order.idxOf u = k
  induction k using Nat.strongRecOn generalizing u outlet with
  | ind k ih =>
    rw [onTheSpot_readInlined fits left ⟨u, outlet⟩, onTheSpot_readInlined fits right ⟨u, outlet⟩, if_pos own, if_pos own]
    have inlets : I.inletValues g (I.readInlined g left inlined) u =
        I.inletValues g (I.readInlined g right inlined) u := by
      refine inletValues_congr fits.wf (fun e feeds => ?_)
      by_cases inner : e.node ∈ inlined
      · have less := ((pair_sublist_iff_idxOf_lt fits.ordered.nodup).mp (fits.before inner feeds)).2
        exact ih _ (place ▸ less) (closed u member own e.node inner feeds) inner (.through inner feeds used) e.portlet rfl
      · rw [readInlined_of_not_mem inner, readInlined_of_not_mem inner]
        exact outlets u member used e inner feeds
    dsimp only
    rw [inlets, states u own]

/-- An inlined node runs in the full run only. -/
theorem Simulates.skip (fits : g.Inlinable order inlined) {done : List String} {full short : Store V S}
    (simulates : Simulates I g inlined done full short) {u : String} (own : u ∈ inlined) (fresh : u ∉ done)
    (sources : ∀ w ∈ inlined, g.Feeds .signal w u → w ∈ done) (pure : ∀ inlets state, (I.step u inlets state).2 = state) :
    Simulates I g inlined (done ++ [u]) (I.runNode g Store.outlets full u) short := by
  refine ⟨⟨fun e kept => ?_, ?_⟩, fun v inner passed final used ahead outlet => ?_⟩
  · have other : e.node ≠ u := fun same => kept (same ▸ own)
    exact (if_neg other).trans (simulates.agrees.outlets e kept)
  · rw [← simulates.agrees.states]
    funext other
    by_cases same : other = u
    · subst same
      exact (if_pos rfl).trans (pure _ _)
    · exact if_neg same
  · rw [List.mem_append, List.mem_singleton, not_or] at ahead
    rcases List.mem_append.mp passed with earlier | last
    · have other : v ≠ u := fun same => fresh (same ▸ earlier)
      exact (if_neg other).trans (simulates.pending v inner earlier final used ahead.1 outlet)
    · obtain rfl := List.mem_singleton.mp last
      have inlets := simulates.inletValues fits.wf
        (fun w member feeds => ⟨sources w member feeds, .through member feeds used⟩) ahead.1
      rw [onTheSpot_readInlined fits short ⟨v, outlet⟩, if_pos own]
      refine (if_pos rfl).trans ?_
      rw [inlets, simulates.agrees.states]

/-- Any other node runs in both, and the values that are still to be used do not depend on it. -/
theorem Simulates.step (fits : g.Inlinable order inlined) {done : List String} {full short : Store V S}
    (simulates : Simulates I g inlined done full short) {x : String} (kept : x ∉ inlined) (fresh : x ∉ done)
    (sources : ∀ w ∈ inlined, g.Feeds .signal w x → w ∈ done)
    (closed : ∀ u ∈ done, u ∈ inlined → ∀ w ∈ inlined, g.Feeds .signal w u → w ∈ done)
    (unread : ∀ u ∈ done, ∀ final, g.UsedAt inlined u final → final ∉ done ++ [x] → ¬g.Feeds .signal x u) :
    Simulates I g inlined (done ++ [x]) (I.runNode g Store.outlets full x)
      (I.runNode g (fun store => I.readInlined g store inlined) short x) := by
  have inlets := simulates.inletValues fits.wf
    (fun w member feeds => ⟨sources w member feeds, .last member feeds kept⟩) fresh
  refine ⟨⟨fun e outside => ?_, ?_⟩, fun v inner passed final used ahead outlet => ?_⟩
  · show (if _ then _ else _) = (if _ then _ else _)
    rw [inlets, simulates.agrees.states, simulates.agrees.outlets e outside]
  · funext other
    show (if _ then _ else _) = (if _ then _ else _)
    rw [inlets, simulates.agrees.states]
  · have other : v ≠ x := fun same => kept (same ▸ inner)
    have earlier : v ∈ done := (List.mem_append.mp passed).resolve_right (fun last => other (List.mem_singleton.mp last))
    have before := simulates.pending v inner earlier final used (fun member => ahead (List.mem_append_left _ member)) outlet
    refine (if_neg other).trans (before.trans ?_)
    refine readInlined_store_congr fits closed (fun u member => ?_) (fun u member later e outside feeds => ?_) earlier inner
      used outlet
    · have apart : u ≠ x := fun same => kept (same ▸ member)
      exact (if_neg apart).symm
    · have apart : e.node ≠ x := fun same => unread u member final later ahead (same ▸ feeds)
      exact (if_neg apart).symm

theorem Undivided.source_mem (fits : g.Inlinable order inlined) {traversal done rest : List String}
    (whole : Undivided g order inlined traversal) (split : done ++ rest = traversal) {u w : String} (member : u ∈ done)
    (own : w ∈ inlined) (feeds : g.Feeds .signal w u) : w ∈ done := by
  subst split
  exact mem_of_pair_sublist fits.ordered.nodup whole.sublist (fits.before own feeds)
    ((whole.together w own u feeds).mpr (List.mem_append_left _ member)) member

theorem Undivided.usedAt_mem {traversal : List String} (whole : Undivided g order inlined traversal) {u final : String}
    (used : g.UsedAt inlined u final) (member : u ∈ traversal) : final ∈ traversal := by
  induction used with
  | last own feeds _ => exact (whole.together _ own _ feeds).mp member
  | through own feeds _ ih => exact ih ((whole.together _ own _ feeds).mp member)

/-- What is left of a traversal runs alike. -/
theorem Simulates.run (fits : g.Inlinable order inlined)
    (pure : ∀ u ∈ inlined, ∀ inlets state, (I.step u inlets state).2 = state) {traversal done rest : List String}
    (whole : Undivided g order inlined traversal) (split : done ++ rest = traversal) {full short : Store V S}
    (simulates : Simulates I g inlined done full short) :
    Simulates I g inlined traversal (I.run g Store.outlets full rest)
      (I.run g (fun store => I.readInlined g store inlined) short (rest.filter (fun id => !inlined.contains id))) := by
  induction rest generalizing done full short with
  | nil =>
    rw [List.append_nil] at split
    exact split ▸ simulates
  | cons x rest ih =>
    have next : (done ++ [x]) ++ rest = traversal := by rw [List.append_assoc, List.singleton_append, split]
    have nodup : (done ++ x :: rest).Nodup := split ▸ fits.ordered.nodup.sublist whole.sublist
    have fresh : x ∉ done := fun member => (List.nodup_append.mp nodup).2.2 x member x List.mem_cons_self rfl
    have sources : ∀ w ∈ inlined, g.Feeds .signal w x → w ∈ done := by
      intro w own feeds
      have passed := whole.source_mem fits next (List.mem_append_right _ List.mem_cons_self) own feeds
      refine (List.mem_append.mp passed).resolve_right (fun last => ?_)
      obtain rfl := List.mem_singleton.mp last
      have less := ((pair_sublist_iff_idxOf_lt fits.ordered.nodup).mp (fits.before own feeds)).2
      omega
    by_cases own : x ∈ inlined
    · rw [List.filter_cons_of_neg (by simpa using own)]
      exact ih next (simulates.skip fits own fresh sources (pure x own))
    · rw [List.filter_cons_of_pos (by simpa using own)]
      refine ih next (simulates.step fits own fresh sources (fun u member _ w inner feeds =>
        whole.source_mem fits split member inner feeds) (fun u member final used ahead feeds => ?_))
      have inside : (done ++ [x] ++ rest).Sublist order := next ▸ whole.sublist
      rcases fits.source_outside used own feeds with before | rfl | after
      · have inDone := mem_of_pair_sublist fits.ordered.nodup (split ▸ whole.sublist) before
          (List.mem_append_right _ List.mem_cons_self) member
        exact fresh inDone
      · exact ahead (List.mem_append_right _ List.mem_cons_self)
      · have finalMember : final ∈ done ++ [x] ++ rest := by
          rw [next]
          exact whole.usedAt_mem used (split ▸ List.mem_append_left _ member)
        exact ahead (mem_of_pair_sublist fits.ordered.nodup inside after finalMember
          (List.mem_append_right _ List.mem_cons_self))

/-- From stores that agree, whole traversals lead to stores that agree, however many of them run. -/
theorem runAll_inlined (fits : g.Inlinable order inlined)
    (pure : ∀ u ∈ inlined, ∀ inlets state, (I.step u inlets state).2 = state) {schedule : List (List String)}
    (whole : ∀ traversal ∈ schedule, Undivided g order inlined traversal) {full short : Store V S}
    (agrees : Agrees inlined full short) :
    Agrees inlined (I.runAll g Store.outlets full schedule)
      (I.runAll g (fun store => I.readInlined g store inlined) short
        (schedule.map (fun traversal => traversal.filter (fun id => !inlined.contains id)))) := by
  induction schedule generalizing full short with
  | nil => exact agrees
  | cons traversal rest ih =>
    have started : Simulates I g inlined [] full short := ⟨agrees, fun _ _ passed => absurd passed List.not_mem_nil⟩
    have ran := started.run fits pure (whole traversal List.mem_cons_self) (List.nil_append traversal)
    exact ih (fun other member => whole other (List.mem_cons_of_mem _ member)) ran.agrees

end DspPatch.Interpretation
