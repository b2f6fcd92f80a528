import DspPatch.Proofs.Graph.SignalInputs

/-!
What the full traversal lists. It is the union of two searches: the signal walk lists what pulling nodes demand, and the
message walk adds the other nodes that messages reach (`full_traversal_exact`). So a node runs exactly if it is demanded or
messages come to it, it runs once, and what is demanded runs first, with inputs before the nodes they feed outside of
feedback.
-/
namespace DspPatch.Graph
open Relation
variable {g : Graph}

/-- Where portlets stand under their ids, messages go along the connections that leave message outlets. -/
theorem PortletsKeyed.sendsTo_iff (keyed : g.PortletsKeyed) {u v : String} : g.SendsTo u v ↔ g.Feeds .message u v := by
  have listed {n : Node} (found : g.get? u = some n) {p : Portlet} :
      p ∈ n.outletsOf .message ↔ n.outlets.get? p.id = some p ∧ p.kind = .message :=
    mem_portletsOf_iff (keyed.outletId found)
  constructor
  · rintro ⟨n, found, p, member, ⟨_, inlet⟩, recorded, rfl⟩
    obtain ⟨declared, isMessage⟩ := (listed found).mp member
    exact ⟨p.id, inlet, n, p, found, declared, isMessage, recorded⟩
  · rintro ⟨outlet, inlet, n, p, found, declared, isMessage, recorded⟩
    cases keyed.outletId found declared
    exact ⟨n, found, p, (listed found).mpr ⟨declared, isMessage⟩, ⟨v, inlet⟩, recorded, rfl⟩

/-- The nodes that the host calls exist. -/
theorem callers_present {s : Settings} (fitting : s.checkPortlets g = .ok ()) :
    ∀ id ∈ s.inletCallers.keys, ∃ n, g.get? id = some n := by
  intro id member
  obtain ⟨entry, listed, rfl⟩ := List.mem_map.mp member
  obtain ⟨n, found, _⟩ := PortletSpec.check_eq_ok_iff.mp (then_eq_ok_iff.mp fitting).1 entry listed
  exact ⟨n, found⟩

/-- The full traversal of an accepted patch lists the nodes that are demanded or that messages reach, each once. Those that
    are demanded come first, and their inputs before them, unless these depend on them. -/
theorem full_traversal_exact {s : Settings} (accepted : g.checkIntegrity = .ok ())
    (fitting : s.checkPortlets g = .ok ()) :
    ∃ first rest, g.fullTraversal s.inletCallers.keys = .ok (first ++ rest) ∧ (first ++ rest).Nodup ∧
      (∀ v, v ∈ first ++ rest ↔ g.Demanded v ∨ g.Messaged s.inletCallers.keys v) ∧
      (∀ v, v ∈ first ↔ g.Demanded v) ∧
      (∀ v ∈ first, ∀ u, g.SignalInput u v → [u, v].Sublist first ∨ TransGen g.SignalInput v u) ∧
      (g.PortletsKeyed → ∀ u v, g.SendsTo u v ↔ g.Feeds .message u v) := by
  have mirrored := checkIntegrity_eq_ok_iff.mp accepted
  obtain ⟨signal, message, walked, messageWalk, walks⟩ := fullTraversal_mirrored mirrored (callers_present fitting)
  have once := nodup_append_filter walks.signalOrder.nodup (nodup_of_messageTraversal messageWalk)
  refine ⟨signal, message.filter (fun id => id ∉ signal), walked, once, fun v => walks.mem_full_iff, walks.demanded,
    fun v member u input => ?_, fun keyed u v => keyed.sendsTo_iff⟩
  exact walks.before_of_demanded mirrored ((walks.demanded v).mp member) input

/-- An oscillator into a delay loop, whose mixer a slider sets. A log takes what the slider sends and what the host sends to
    a tuner, and a meter that nothing reads hangs on the oscillator. -/
def tunedLoop : Graph := [
  { Node.bare "osc" "osc" with
    outlets := .ofList [("0", ⟨"0", .signal⟩)], sinks := .ofList [("0", [⟨"mix", "0"⟩, ⟨"meter", "0"⟩])] },
  { Node.bare "meter" "meter" with
    inlets := .ofList [("0", ⟨"0", .signal⟩)], sources := .ofList [("0", [⟨"osc", "0"⟩])] },
  { Node.bare "log" "log" with
    inlets := .ofList [("0", ⟨"0", .message⟩)], sources := .ofList [("0", [⟨"slider", "0"⟩, ⟨"tuner", "0"⟩])] },
  { Node.bare "slider" "slider" with
    outlets := .ofList [("0", ⟨"0", .message⟩)], sinks := .ofList [("0", [⟨"mix", "1"⟩, ⟨"log", "0"⟩])]
    isPushingMessages := true },
  { Node.bare "out" "dac" with
    inlets := .ofList [("0", ⟨"0", .signal⟩)], sources := .ofList [("0", [⟨"mix", "0"⟩])], isPullingSignal := true },
  { Node.bare "mix" "mix" with
    inlets := .ofList [("0", ⟨"0", .signal⟩), ("1", ⟨"1", .message⟩)], outlets := .ofList [("0", ⟨"0", .signal⟩)]
    sources := .ofList [("0", [⟨"osc", "0"⟩, ⟨"delay", "0"⟩]), ("1", [⟨"slider", "0"⟩])]
    sinks := .ofList [("0", [⟨"out", "0"⟩, ⟨"delay", "0"⟩])] },
  { Node.bare "delay" "delay" with
    inlets := .ofList [("0", ⟨"0", .signal⟩)], outlets := .ofList [("0", ⟨"0", .signal⟩)]
    sources := .ofList [("0", [⟨"mix", "0"⟩])], sinks := .ofList [("0", [⟨"mix", "0"⟩])] },
  { Node.bare "tuner" "tuner" with
    inlets := .ofList [("0", ⟨"0", .message⟩)], outlets := .ofList [("0", ⟨"0", .message⟩)]
    sinks := .ofList [("0", [⟨"log", "0"⟩])] }].foldl Graph.insert .empty

/-- The host may send to the tuner. -/
def tunerSettings : Settings := { inletCallers := .ofList [("tuner", ["0"])] }

/-- The loop runs before the slider that sets it. The delay runs before the mixer that feeds it, as the mixer depends on
    it. The log, which nothing demands, runs for its messages, and the meter does not run. -/
theorem full_traversal_exact_tunedLoop :
    tunedLoop.checkIntegrity = .ok () ∧ tunerSettings.checkPortlets tunedLoop = .ok () ∧ tunedLoop.PortletsKeyed ∧
    tunedLoop.fullTraversal ["tuner"] = .ok ["osc", "delay", "mix", "out", "slider", "tuner", "log"] ∧
    tunedLoop.SignalInput "mix" "delay" ∧ TransGen tunedLoop.SignalInput "delay" "mix" ∧
    ¬tunedLoop.Demanded "log" ∧ tunedLoop.Messaged ["tuner"] "log" ∧ tunedLoop.SendsTo "tuner" "log" ∧
    ¬(tunedLoop.Demanded "meter" ∨ tunedLoop.Messaged ["tuner"] "meter") := by
  have accepted : tunedLoop.checkIntegrity = .ok () := by decide +kernel
  have fitting : tunerSettings.checkPortlets tunedLoop = .ok () := by decide +kernel
  have keyed : tunedLoop.PortletsKeyed := by decide +kernel
  have traversal : tunedLoop.fullTraversal ["tuner"] =
    .ok ["osc", "delay", "mix", "out", "slider", "tuner", "log"] := by decide +kernel
  have signalWalk : tunedLoop.signalTraversal (fun _ => true) tunedLoop.pullingIds =
    .ok ["osc", "delay", "mix", "out"] := by decide +kernel
  have logs : tunedLoop.Feeds .message "tuner" "log" := ⟨"0", "0", _, _, rfl, rfl, rfl, by decide +kernel⟩
  have fed : tunedLoop.SignalInput "mix" "delay" :=
    ⟨_, "0", _, rfl, rfl, rfl, ⟨"mix", "0"⟩, by decide +kernel, rfl⟩
  obtain ⟨first, rest, walked, _, runs, demanded, inputsFirst, messages⟩ := full_traversal_exact accepted fitting
  have listed : first ++ rest = ["osc", "delay", "mix", "out", "slider", "tuner", "log"] :=
    Except.ok.inj (walked.symm.trans traversal)
  obtain ⟨signal, signalWalked, _, pulled⟩ := signalTraversal_mirrored (checkIntegrity_eq_ok_iff.mp accepted)
  cases Except.ok.inj (signalWalk.symm.trans signalWalked)
  have undemanded : ¬tunedLoop.Demanded "log" := by
    rw [← pulled]
    decide
  have depends : TransGen tunedLoop.SignalInput "delay" "mix" := by
    have runsFirst : "delay" ∈ first := by
      rw [demanded, ← pulled]
      decide
    refine (inputsFirst "delay" runsFirst "mix" fed).resolve_left (fun before => ?_)
    have inOrder := before.trans (List.sublist_append_left first rest)
    rw [listed] at inOrder
    exact absurd inOrder (by decide)
  refine ⟨accepted, fitting, keyed, traversal, fed, depends, undemanded, ?_, (messages keyed _ _).mpr logs, ?_⟩
  · refine ((runs "log").mp ?_).resolve_left undemanded
    rw [listed]
    decide
  · intro kept
    have member := (runs "meter").mpr kept
    rw [listed] at member
    exact absurd member (by decide)

end DspPatch.Graph
