import DspPatch.Proofs.Graph.TrimmedWalk
import DspPatch.Proofs.Passes
import DspPatch.Proofs.Recomputation

/-!
Nodes that a compilation does not reach have no influence on its program. Compiling the graph that is trimmed to the
traversal runs the same passes on the same input, so that only the hash of the graph can differ.
-/
namespace DspPatch

/-- Settings that fit a graph fit it after trimming, if they speak of kept nodes only. -/
theorem checkedSettings_trim {g : Graph} {keep : List String} {request : SettingsRequest} {s : Settings}
    (keyed : ∀ {key n}, g.get? key = some n → n.id = key) (checked : checkedSettings g request = .ok s)
    (called : s.inletCallers.keys ⊆ keep) (listened : s.outletListeners.keys ⊆ keep) :
    checkedSettings (g.trim keep) request = .ok s := by
  obtain ⟨valid, callers, listeners⟩ := checkedSettings_eq_ok_iff.mp checked
  refine checkedSettings_eq_ok_iff.mpr ⟨valid, ?_, ?_⟩
  · intro entry member
    exact (callers entry member).trim keyed (called (List.mem_map_of_mem member))
  · intro entry member
    exact (listeners entry member).trim keyed (listened (List.mem_map_of_mem member))

theorem callers_subset_fullTraversal {g : Graph} (mirrored : g.Mirrored) {callers full : List String}
    (traversal : g.fullTraversal callers = .ok full) : callers ⊆ full := by
  intro id member
  obtain ⟨called, _⟩ := Graph.fullTraversal_eq_ok_iff.mp (Graph.fullTraversal_trim mirrored traversal)
  obtain ⟨n, found⟩ := called id member
  obtain ⟨_, _, kept, _⟩ := (Graph.get?_trim mirrored.keyed).mp found
  exact kept

/-- The same program, made from another graph. -/
def CompiledProgram.madeFrom (result : CompiledProgram) (g : Graph) : CompiledProgram :=
  { result with provenance := { result.provenance with graphHash := Sha256.digest g.text } }

/-- Without the nodes that a compilation does not reach, a patch compiles to the same program, but for its own hash. -/
theorem unreachable_irrelevant {g : Graph} {r : Registry} {request : SettingsRequest} {result : CompiledProgram}
    (accepted : g.checkIntegrity = .ok ()) (compiled : compile g r request = .ok result)
    (listened : result.settings.outletListeners.keys ⊆ result.traversal) :
    (g.trim result.traversal).fullTraversal result.settings.inletCallers.keys = .ok result.traversal ∧
      compile (g.trim result.traversal) r request = .ok (result.madeFrom (g.trim result.traversal)) := by
  have mirrored := Graph.checkIntegrity_eq_ok_iff.mp accepted
  obtain ⟨s, full, checked, traversal, passes, rfl⟩ := compile_eq_ok_iff.mp compiled
  have again : (g.trim full).fullTraversal s.inletCallers.keys = .ok full := Graph.fullTraversal_trim mirrored traversal
  have samePasses : ∀ provenance, ∃ later : Passes ⟨(g.trim full).trim full, r, s⟩ full,
      later.result provenance = passes.result provenance := by
    rw [Graph.trim_trim mirrored.keyed]
    exact fun _ => ⟨passes, rfl⟩
  refine ⟨again, compile_eq_ok_iff.mpr ⟨s, full, ?_, again, samePasses (.of (g.trim full) r)⟩⟩
  exact checkedSettings_trim mirrored.keyed checked (callers_subset_fullTraversal mirrored traversal) listened

/-- The gain with a probe at its outlet, which is never pulled. -/
def probedPatch : Graph :=
  Draft.gainPatch
    |>.insert { Node.bare "gain" "gain" with
      inlets := .ofList [("0", ⟨"0", .message⟩)], outlets := .ofList [("0", ⟨"0", .signal⟩)]
      sources := .ofList [("0", [⟨"slider", "0"⟩])], sinks := .ofList [("0", [⟨"probe", "0"⟩, ⟨"shape", "0"⟩])] }
    |>.insert { Node.bare "probe" "probe" with
      inlets := .ofList [("0", ⟨"0", .signal⟩)], sources := .ofList [("0", [⟨"gain", "0"⟩])] }

/-- The host listens to the slider. -/
def listenedRequest : SettingsRequest :=
  { Draft.gainRequest with outletListeners := some (.ofList [("slider", ["0"])]) }

/-- The probe has no registered type; the patch compiles as it does without it. -/
theorem unreachable_irrelevant_probe :
    probedPatch.nodes.keys = ["slider", "gain", "shape", "out", "probe"] ∧ ∃ result,
      compile probedPatch Draft.gainRegistry listenedRequest = .ok result ∧
      result.traversal = Draft.gainTraversal ∧ result.settings.outletListeners.keys = ["slider"] ∧
      compile (probedPatch.trim result.traversal) Draft.gainRegistry listenedRequest =
        .ok (result.madeFrom (probedPatch.trim result.traversal)) := by
  refine ⟨by decide +kernel, ?_⟩
  have made : (compile probedPatch Draft.gainRegistry listenedRequest).map
      (fun result => (result.traversal, result.settings.outletListeners.keys)) = .ok (Draft.gainTraversal, ["slider"]) := by
    decide +kernel
  cases compiled : compile probedPatch Draft.gainRegistry listenedRequest with
  | error failure =>
    rw [compiled] at made
    cases made
  | ok result =>
    rw [compiled] at made
    obtain ⟨traversal, listeners⟩ := Prod.mk.inj (Except.ok.inj made)
    have listened : result.settings.outletListeners.keys ⊆ result.traversal := by
      rw [traversal, listeners]
      decide
    exact ⟨result, rfl, traversal, listeners, (unreachable_irrelevant (by decide +kernel) compiled listened).2⟩

end DspPatch
