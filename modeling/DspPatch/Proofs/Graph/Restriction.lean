import DspPatch.Proofs.Graph.Readers
import DspPatch.Proofs.Graph.Trim

/-!
Trimming as a restriction. A restriction of a graph has some of its nodes, in the order of the graph, and of their
connections those with both ends in it, in the order of the records (`Graph.Restriction`). Trimming is the restriction to
the nodes that are kept. It leads from checked graphs to checked graphs, and trimming twice is trimming to what is kept
both times (`Graph.trim_restricts`).
-/
namespace DspPatch

namespace Graph
variable {g : Graph} {keep : List String}

/-- `t` has the nodes of `g` under the keys `keep`, and of every connection between two of them both records, all in the
    order of `g`; a portlet without ends has no record. -/
structure Restriction (g : Graph) (keep : List String) (t : Graph) : Prop where
  nodes : t.nodes.entries.map (fun entry => (entry.1, entry.2.unconnected)) =
    (g.nodes.entries.filter (fun entry => entry.1 ∈ keep)).map (fun entry => (entry.1, entry.2.unconnected))
  ends : ∀ side e, t.endsAt side e =
    if e.node ∈ keep then (g.endsAt side e).filter (fun other => other.node ∈ keep) else []
  order : ∀ side {id n whole}, t.get? id = some n → g.get? id = some whole →
    (n.records side).keys.Sublist (whole.records side).keys
  nonempty : ∀ side, ∀ n ∈ t.nodes.values, ∀ entry ∈ (n.records side).entries, entry.2 ≠ []

theorem endsOf_trimNode (keep : List String) (n : Node) (side : PortletSide) (portlet : String) :
    (trimNode keep n).endsOf side portlet = (n.endsOf side portlet).filter (fun e => e.node ∈ keep) := by
  cases side with
  | inlets => exact sourcesOf_trimNode keep n portlet
  | outlets => exact sinksOf_trimNode keep n portlet

theorem records_trimNode (keep : List String) (n : Node) (side : PortletSide) :
    (trimNode keep n).records side = keepEnds keep (n.records side) := by
  cases side <;> rfl

theorem keys_keepEnds_sublist (keep : List String) (ends : Table (List Endpoint)) :
    (keepEnds keep ends).keys.Sublist ends.keys := by
  have all : (ends.entries.map (fun entry => (entry.1, entry.2.filter (fun e => e.node ∈ keep)))).map Prod.fst = ends.keys := by
    rw [List.map_map]
    rfl
  rw [← all]
  exact List.filter_sublist.map Prod.fst

theorem nonempty_keepEnds {ends : Table (List Endpoint)} {entry : String × List Endpoint}
    (kept : entry ∈ (keepEnds keep ends).entries) : entry.2 ≠ [] := by
  rw [entries_keepEnds, List.mem_filter] at kept
  simpa using kept.2

theorem endsAt_trim (keyed : ∀ {key n}, g.get? key = some n → n.id = key) (side : PortletSide) (e : Endpoint) :
    (g.trim keep).endsAt side e =
      if e.node ∈ keep then (g.endsAt side e).filter (fun other => other.node ∈ keep) else [] := by
  have looked : (g.trim keep).get? e.node = if e.node ∈ keep then (g.get? e.node).map (trimNode keep) else none := by
    apply Option.ext
    intro n
    rw [get?_trim keyed]
    by_cases kept : e.node ∈ keep <;> simp [kept]
  unfold endsAt
  rw [looked]
  by_cases kept : e.node ∈ keep
  · rw [if_pos kept, if_pos kept]
    cases g.get? e.node with
    | none => rfl
    | some n => exact endsOf_trimNode keep n side e.portlet
  · rw [if_neg kept, if_neg kept]
    rfl

theorem restriction_trim (keyed : ∀ {key n}, g.get? key = some n → n.id = key) (keep : List String) :
    g.Restriction keep (g.trim keep) := by
  refine ⟨?_, endsAt_trim keyed, fun side id n whole kept found => ?_, fun side n member entry listed => ?_⟩
  · rw [entries_trim keyed, List.map_map]
    rfl
  · obtain ⟨full, present, _, rfl⟩ := (get?_trim keyed).mp kept
    cases found.symm.trans present
    rw [records_trimNode]
    exact keys_keepEnds_sublist keep _
  · obtain ⟨id, found⟩ := Table.mem_values_iff.mp member
    obtain ⟨full, _, _, rfl⟩ := (get?_trim keyed).mp found
    rw [records_trimNode] at listed
    exact nonempty_keepEnds listed

/-- Trimming restricts an accepted graph to what is kept. The result is accepted, and restricting it again is restricting
    the graph once to what is kept both times. -/
theorem trim_restricts (accepted : g.checkIntegrity = .ok ()) (keep others : List String) :
    g.Restriction keep (g.trim keep) ∧ (g.trim keep).checkIntegrity = .ok () ∧
      (g.trim keep).trim others = g.trim (keep.filter (fun id => id ∈ others)) := by
  have mirrored := checkIntegrity_eq_ok_iff.mp accepted
  exact ⟨restriction_trim mirrored.keyed keep, checkIntegrity_eq_ok_iff.mpr (mirrored_trim mirrored keep),
    trim_trim_inter mirrored.keyed keep others⟩

/-- A mixer that hears an oscillator and, through a delay, itself. -/
def loopPatch : Graph := [
  { Node.bare "osc" "osc" with
    outlets := .ofList [("0", ⟨"0", .signal⟩)], sinks := .ofList [("0", [⟨"mix", "0"⟩])] },
  { Node.bare "mix" "mix" with
    inlets := .ofList [("0", ⟨"0", .signal⟩)], outlets := .ofList [("0", ⟨"0", .signal⟩)]
    sources := .ofList [("0", [⟨"osc", "0"⟩, ⟨"delay", "0"⟩])], sinks := .ofList [("0", [⟨"delay", "0"⟩, ⟨"out", "0"⟩])] },
  { Node.bare "delay" "delay" with
    inlets := .ofList [("0", ⟨"0", .signal⟩)], outlets := .ofList [("0", ⟨"0", .signal⟩)]
    sources := .ofList [("0", [⟨"mix", "0"⟩])], sinks := .ofList [("0", [⟨"mix", "0"⟩])] },
  { Node.bare "out" "dac" with
    inlets := .ofList [("0", ⟨"0", .signal⟩)], sources := .ofList [("0", [⟨"mix", "0"⟩])]
    isPullingSignal := true }].foldl Graph.insert .empty

/-- Without its delay the mixer hears the oscillator only; without the oscillator too, it has no sources left. -/
theorem trim_restricts_loop :
    loopPatch.checkIntegrity = .ok () ∧
    (loopPatch.trim ["out", "mix", "osc"]).endsAt .inlets ⟨"mix", "0"⟩ = [⟨"osc", "0"⟩] ∧
    (loopPatch.trim ["out", "mix", "osc"]).checkIntegrity = .ok () ∧
    (loopPatch.trim ["out", "mix", "osc"]).trim ["mix", "delay", "out"] = loopPatch.trim ["out", "mix"] ∧
    (loopPatch.trim ["out", "mix"]).endsAt .inlets ⟨"mix", "0"⟩ = [] := by
  have accepted : loopPatch.checkIntegrity = .ok () := by decide +kernel
  obtain ⟨first, checked, both⟩ := trim_restricts accepted ["out", "mix", "osc"] ["mix", "delay", "out"]
  obtain ⟨second, _⟩ := trim_restricts accepted ["out", "mix"] []
  refine ⟨accepted, ?_, checked, both, ?_⟩
  · rw [first.ends]
    decide +kernel
  · rw [second.ends]
    decide +kernel

end Graph
end DspPatch
