import DspPatch.Proofs.Outcome
import DspPatch.Proofs.Table
import DspPatch.Settings.Basic

/-!
Checked settings. Every node and portlet that they name is a message portlet of the graph, and what does not fit is
refused as invalid settings.
-/
namespace DspPatch

/-- The settings of a request that fits a graph. -/
def checkedSettings (g : Graph) (request : SettingsRequest) : Except CompileError Settings := do
  let settings ← request.validate
  settings.checkPortlets g
  return settings

/-- Settings that a compilation cannot use. -/
def CompileError.IsSettings (e : CompileError) : Prop := ∃ fault, e = .settings fault

theorem AudioRequest.validate_yields (request : AudioRequest) :
    Yields request.validate (fun _ => True) CompileError.IsSettings := by
  unfold validate
  cases request.bitDepth with
  | none => trivial
  | some bits =>
    dsimp only
    cases BitDepth.ofBits? bits with
    | some depth => trivial
    | none => exact ⟨_, rfl⟩

theorem SettingsRequest.validate_yields (request : SettingsRequest) :
    Yields request.validate (fun s => s.inletCallers = request.inletCallers.getD ∅) CompileError.IsSettings := by
  unfold validate
  cases request.audio with
  | none =>
    dsimp only
    split
    next => exact ⟨_, rfl⟩
    next => exact rfl
  | some audio =>
    refine Yields.bind audio.validate_yields (fun _ _ => ?_)
    dsimp only
    split
    next => exact ⟨_, rfl⟩
    next => exact rfl

/-- Every node that is named exists, and has the portlets that are named for it. -/
def PortletSpec.Fits (spec : PortletSpec) (g : Graph) (entry : String × List String) : Prop :=
  ∃ n, g.get? entry.1 = some n ∧ ∀ portlet ∈ entry.2, ∃ p, (spec.portlets n).get? portlet = some p ∧ p.kind = .message

theorem PortletSpec.check_yields (spec : PortletSpec) (named : PortletSpecs) (g : Graph) :
    Yields (spec.check named g) (fun _ => ∀ entry ∈ named.entries, spec.Fits g entry) CompileError.IsSettings := by
  refine Yields.forM ?_
  rintro ⟨id, portlets⟩ _
  dsimp only
  split
  next => exact ⟨_, rfl⟩
  next n found =>
    refine Yields.mono (Yields.forM (fun portlet _ => ?_)) (fun _ declared => ⟨n, found, declared⟩) (fun _ bad => bad)
    split
    next own declared => exact ⟨⟨own, .message⟩, declared, rfl⟩
    next => exact ⟨_, rfl⟩
    next => exact ⟨_, rfl⟩

/-- Portlets are accepted exactly if they fit. -/
theorem PortletSpec.check_eq_ok_iff {spec : PortletSpec} {named : PortletSpecs} {g : Graph} :
    spec.check named g = .ok () ↔ ∀ entry ∈ named.entries, spec.Fits g entry := by
  refine ⟨(spec.check_yields named g).of_eq_ok, fun fits => ?_⟩
  unfold PortletSpec.check
  rw [forM_eq_ok_iff]
  rintro ⟨id, portlets⟩ member
  obtain ⟨n, found, declared⟩ := fits _ member
  simp only [found, forM_eq_ok_iff]
  intro portlet listed
  obtain ⟨⟨own, kind⟩, isDeclared, rfl⟩ := declared portlet listed
  rw [isDeclared]

theorem checkedSettings_eq_ok_iff {g : Graph} {request : SettingsRequest} {s : Settings} :
    checkedSettings g request = .ok s ↔ request.validate = .ok s ∧
      (∀ entry ∈ s.inletCallers.entries, PortletSpec.inletCallers.Fits g entry) ∧
      ∀ entry ∈ s.outletListeners.entries, PortletSpec.outletListeners.Fits g entry := by
  unfold checkedSettings Settings.checkPortlets
  rw [bind_eq_ok_iff]
  constructor
  · rintro ⟨valid, validated, checked⟩
    obtain ⟨accepted, same⟩ := then_eq_ok_iff.mp checked
    cases same
    obtain ⟨called, listened⟩ := then_eq_ok_iff.mp accepted
    exact ⟨validated, PortletSpec.check_eq_ok_iff.mp called, PortletSpec.check_eq_ok_iff.mp listened⟩
  · rintro ⟨validated, called, listened⟩
    refine ⟨s, validated, then_eq_ok_iff.mpr ⟨?_, rfl⟩⟩
    exact then_eq_ok_iff.mpr ⟨PortletSpec.check_eq_ok_iff.mpr called, PortletSpec.check_eq_ok_iff.mpr listened⟩

theorem checkedSettings_yields (g : Graph) (request : SettingsRequest) :
    Yields (checkedSettings g request) (fun s => ∀ entry ∈ s.inletCallers.entries, PortletSpec.inletCallers.Fits g entry)
      CompileError.IsSettings := by
  refine Yields.bind request.validate_yields (fun s _ => ?_)
  refine Yields.bind ?_ (fun _ called => called)
  refine Yields.bind (PortletSpec.inletCallers.check_yields s.inletCallers g) (fun _ called => ?_)
  exact (PortletSpec.outletListeners.check_yields s.outletListeners g).mono (fun _ _ => called) (fun _ bad => bad)

end DspPatch
