import DspPatch.Proofs.Graph.SignalInputs

/-!
What the signal walk lists, and when it fails, told by the records of the graph alone. A walk may leave the sources of
some nodes unexplored; it follows the signal inputs of the others. It succeeds if the roots exist and every explored node
that it comes to has declared inlets and existing inputs, and then it lists what it comes to once, inputs first outside
of feedback (`signal_walk_exact`). Only the place of every node under its id is used.
-/
namespace DspPatch.Graph
open Relation
variable {g : Graph} {explore : Node → Bool} {roots : List String}

/-- The sources of `v` are to be explored. -/
def Explored (g : Graph) (explore : Node → Bool) (v : String) : Prop := ∃ n, g.get? v = some n ∧ explore n = true

/-- `u` is a signal input of `v`, whose sources are to be explored. -/
def Follows (g : Graph) (explore : Node → Bool) (v u : String) : Prop := g.Explored explore v ∧ g.SignalInput u v

/-- `v` is a root, or it is come to from one by following signal inputs of explored nodes. -/
def Behind (g : Graph) (explore : Node → Bool) (roots : List String) (v : String) : Prop :=
  ∃ root ∈ roots, ReflTransGen (g.Follows explore) root v

/-- Every inlet of `v` that has sources is declared, and the signal inputs of `v` exist. -/
structure Followable (g : Graph) (v : String) : Prop where
  declared : ∀ n, g.get? v = some n → ∀ inlet ∈ n.sources.keys, inlet ∈ n.inlets.keys
  present : ∀ u, g.SignalInput u v → ∃ n, g.get? u = some n

theorem Explores.follows {v u : String} (explores : g.Explores explore v u) : g.Follows explore v u := by
  obtain ⟨n, list, inlet, found, explored, read, member⟩ := explores
  obtain ⟨inlet, p, input⟩ := (exists_mem_signalSources_iff read).mp ⟨inlet, member⟩
  exact ⟨⟨n, found, explored⟩, n, inlet, p, found, input⟩

theorem Follows.explores {v u : String} (follows : g.Follows explore v u) (followable : g.Followable v) :
    g.Explores explore v u := by
  obtain ⟨⟨n, found, explored⟩, m, inlet, p, mFound, input⟩ := follows
  cases found.symm.trans mFound
  obtain ⟨list, read⟩ := exists_signalSources_iff.mpr (followable.declared n found)
  obtain ⟨inlet, member⟩ := (exists_mem_signalSources_iff read).mpr ⟨inlet, p, input⟩
  exact ⟨n, list, inlet, found, explored, read, member⟩

/-- The walk fails exactly at explored nodes that cannot be followed. -/
theorem faulty_iff {v : String} : g.Faulty explore v ↔ g.Explored explore v ∧ ¬g.Followable v := by
  constructor
  · rintro ⟨n, found, explored, ⟨e, failed⟩ | ⟨list, inlet, u, read, member, missing⟩⟩
    · refine ⟨⟨n, found, explored⟩, fun followable => ?_⟩
      obtain ⟨list, read⟩ := exists_signalSources_iff.mpr (followable.declared n found)
      cases failed.symm.trans read
    · refine ⟨⟨n, found, explored⟩, fun followable => ?_⟩
      obtain ⟨inlet, p, input⟩ := (exists_mem_signalSources_iff read).mp ⟨inlet, member⟩
      obtain ⟨m, mFound⟩ := followable.present u ⟨n, inlet, p, found, input⟩
      cases missing.symm.trans mFound
  · rintro ⟨⟨n, found, explored⟩, bad⟩
    by_contra sound
    refine bad ⟨fun m mFound => ?_, fun u input => ?_⟩
    · cases found.symm.trans mFound
      refine exists_signalSources_iff.mp ?_
      cases read : signalSources n with
      | ok list => exact ⟨list, rfl⟩
      | error e => exact absurd ⟨n, found, explored, .inl ⟨e, read⟩⟩ sound
    · obtain ⟨m, inlet, p, mFound, input⟩ := input
      cases found.symm.trans mFound
      cases read : signalSources n with
      | error e => exact absurd ⟨n, found, explored, .inl ⟨e, read⟩⟩ sound
      | ok list =>
        obtain ⟨inlet, member⟩ := (exists_mem_signalSources_iff read).mpr ⟨inlet, p, input⟩
        cases present : g.get? u with
        | some source => exact ⟨source, rfl⟩
        | none => exact absurd ⟨n, found, explored, .inr ⟨list, inlet, u, read, member, present⟩⟩ sound

/-- As long as the explored nodes on the way can be followed, the walk goes where the records lead. -/
theorem reflTransGen_explores_iff_follows {root v : String}
    (followable : ∀ w, ReflTransGen (g.Explores explore) root w → ¬g.Faulty explore w) :
    ReflTransGen (g.Explores explore) root v ↔ ReflTransGen (g.Follows explore) root v := by
  constructor
  · exact ReflTransGen.mono (fun _ _ => Explores.follows) _ _
  · intro chain
    induction chain with
    | refl => exact .refl
    | @tail w u _ step ih =>
      refine ih.tail (step.explores ?_)
      by_contra bad
      exact followable w ih (faulty_iff.mpr ⟨step.1, bad⟩)

/-- The nodes of a finished walk are those that the records lead to. -/
theorem SignalOrder.mem_iff_behind {order : List String} (listed : g.SignalOrder explore roots order) {v : String} :
    v ∈ order ↔ g.Behind explore roots v := by
  rw [listed.mem_iff, Behind]
  refine exists_congr (fun root => and_congr_right (fun member => ?_))
  refine reflTransGen_explores_iff_follows (fun w reached => listed.sound w ?_)
  exact (listed.mem_iff w).mpr ⟨root, member, reached⟩

/-- An input that does not come first depends on the node it feeds. -/
theorem SignalOrder.before_or_depends {order : List String} (listed : g.SignalOrder explore roots order) {v u : String}
    (member : v ∈ order) (follows : g.Follows explore v u) :
    [u, v].Sublist order ∨ TransGen (g.Follows explore) u v := by
  have followable : g.Followable v := by
    by_contra bad
    exact listed.sound v member (faulty_iff.mpr ⟨follows.1, bad⟩)
  refine (listed.sourcesFirst v member u (follows.explores followable)).imp_right (fun chain => ?_)
  have back : ReflTransGen (g.Follows explore) u v := by
    refine reflTransGen_swap.mp (ReflTransGen.mono (fun _ _ step => ?_) _ _ chain)
    exact step.1.follows
  rcases reflTransGen_iff_eq_or_transGen.mp back with rfl | back
  · exact .single follows
  · exact back

/-- The walk ends. It succeeds exactly if the roots exist and the explored nodes behind them can be followed, and then lists
    the nodes behind the roots, each once, and sources before what they feed unless these feed them in turn. -/
theorem signal_walk_exact (keyed : ∀ key n, g.get? key = some n → n.id = key) (explore : Node → Bool)
    (roots : List String) :
    (∀ place, g.signalTraversal explore roots ≠ .error (.graph place .endlessWalk)) ∧
    ((∃ order, g.signalTraversal explore roots = .ok order) ↔ (∀ root ∈ roots, ∃ n, g.get? root = some n) ∧
      ∀ v, g.Behind explore roots v → g.Explored explore v → g.Followable v) ∧
    ∀ order, g.signalTraversal explore roots = .ok order → order.Nodup ∧
      (∀ v, v ∈ order ↔ g.Behind explore roots v) ∧
      ∀ v ∈ order, ∀ u, g.Follows explore v u → [u, v].Sublist order ∨ TransGen (g.Follows explore) u v := by
  have outcome := signalTraversal_outcome (keyed _ _) explore roots
  refine ⟨fun place failed => (outcome.of_eq_error failed).1 trivial, ⟨?_, ?_⟩, fun order walked => ?_⟩
  · rintro ⟨order, walked⟩
    have listed := outcome.of_eq_ok walked
    refine ⟨fun root member => listed.known root ((listed.mem_iff root).mpr ⟨root, member, .refl⟩), ?_⟩
    intro v behind explored
    by_contra bad
    exact listed.sound v (listed.mem_iff_behind.mpr behind) (faulty_iff.mpr ⟨explored, bad⟩)
  · rintro ⟨present, followable⟩
    refine (Yields.exists_ok (outcome.mono (fun _ _ => trivial) ?_)).imp (fun _ walked => walked.1)
    rintro _ ⟨_, root, member, missing | ⟨v, reached, faulty⟩⟩
    · obtain ⟨n, found⟩ := present root member
      cases missing.symm.trans found
    · obtain ⟨explored, bad⟩ := faulty_iff.mp faulty
      refine bad (followable v ⟨root, member, ?_⟩ explored)
      exact ReflTransGen.mono (fun _ _ => Explores.follows) _ _ reached
  · have listed := outcome.of_eq_ok walked
    exact ⟨listed.nodup, fun v => listed.mem_iff_behind, fun v member u follows =>
      listed.before_or_depends member follows⟩

/-- A mixer that a delay feeds back, and a tap whose own source does not exist. -/
def feedbackPatch : Graph := [
  { Node.bare "out" "dac" with
    inlets := .ofList [("0", ⟨"0", .signal⟩)], sources := .ofList [("0", [⟨"mix", "0"⟩])] },
  { Node.bare "mix" "mix" with
    inlets := .ofList [("0", ⟨"0", .signal⟩), ("1", ⟨"1", .signal⟩)], outlets := .ofList [("0", ⟨"0", .signal⟩)]
    sources := .ofList [("0", [⟨"delay", "0"⟩]), ("1", [⟨"tap", "0"⟩])] },
  { Node.bare "delay" "delay" with
    inlets := .ofList [("0", ⟨"0", .signal⟩)], outlets := .ofList [("0", ⟨"0", .signal⟩)]
    sources := .ofList [("0", [⟨"mix", "0"⟩])] },
  { Node.bare "tap" "tap" with
    inlets := .ofList [("0", ⟨"0", .signal⟩)], outlets := .ofList [("0", ⟨"0", .signal⟩)]
    sources := .ofList [("0", [⟨"ghost", "0"⟩])] }].foldl Graph.insert .empty

/-- Explored without the tap, the patch is listed with the delay before the mixer that feeds it, which therefore depends
    on the delay; with the tap, the missing source is found. -/
theorem signal_walk_exact_feedback :
    feedbackPatch.nodes.entries.all (fun entry => entry.2.id == entry.1) = true ∧
    feedbackPatch.signalTraversal (fun n => n.type != "tap") ["out", "delay"] = .ok ["delay", "tap", "mix", "out"] ∧
    TransGen (feedbackPatch.Follows (fun n => n.type != "tap")) "mix" "delay" ∧
    (feedbackPatch.signalTraversal (fun _ => true) ["out"]).isOk = false := by
  have own : feedbackPatch.nodes.entries.all (fun entry => entry.2.id == entry.1) = true := by decide +kernel
  have keyed : ∀ key n, feedbackPatch.get? key = some n → n.id = key := by
    intro key n found
    simpa using List.all_eq_true.mp own (key, n) (Table.get?_eq_some_iff.mp found)
  have walked : feedbackPatch.signalTraversal (fun n => n.type != "tap") ["out", "delay"] =
      .ok ["delay", "tap", "mix", "out"] := by decide +kernel
  obtain ⟨_, _, listed⟩ := signal_walk_exact keyed (fun n => n.type != "tap") ["out", "delay"]
  obtain ⟨_, _, ordered⟩ := listed _ walked
  have fed : feedbackPatch.SignalInput "mix" "delay" :=
    ⟨_, "0", _, rfl, rfl, rfl, ⟨"mix", "0"⟩, by decide +kernel, rfl⟩
  refine ⟨own, walked, ?_, ?_⟩
  · have follows : feedbackPatch.Follows (fun n => n.type != "tap") "delay" "mix" := ⟨⟨_, rfl, rfl⟩, fed⟩
    refine (ordered "delay" (by decide) "mix" follows).resolve_left ?_
    decide
  · have mixed : feedbackPatch.Follows (fun _ => true) "out" "mix" :=
      ⟨⟨_, rfl, rfl⟩, _, "0", _, rfl, rfl, rfl, ⟨"mix", "0"⟩, by decide +kernel, rfl⟩
    have tapped : feedbackPatch.Follows (fun _ => true) "mix" "tap" :=
      ⟨⟨_, rfl, rfl⟩, _, "1", _, rfl, rfl, rfl, ⟨"tap", "0"⟩, by decide +kernel, rfl⟩
    have behind : feedbackPatch.Behind (fun _ => true) ["out"] "tap" :=
      ⟨"out", List.mem_cons_self, (ReflTransGen.single mixed).tail tapped⟩
    have ghost : feedbackPatch.SignalInput "ghost" "tap" :=
      ⟨_, "0", _, rfl, rfl, rfl, ⟨"ghost", "0"⟩, by decide +kernel, rfl⟩
    cases walks : feedbackPatch.signalTraversal (fun _ => true) ["out"] with
    | error e => rfl
    | ok order =>
      obtain ⟨_, succeeds, _⟩ := signal_walk_exact keyed (fun _ => true) ["out"]
      obtain ⟨_, followable⟩ := succeeds.mp ⟨order, walks⟩
      obtain ⟨n, found⟩ := (followable "tap" behind ⟨_, rfl, rfl⟩).present "ghost" ghost
      cases found

end DspPatch.Graph
