import DspPatch.Graph.Basic
import DspPatch.Text.Name

/-!
Settings of a compilation. What the user asks for may leave every field out; validation fills in the defaults and
refuses values that no compilation can use.
-/
namespace DspPatch

/-- The numbers of audio channels. -/
structure ChannelCount where
  input : Nat
  output : Nat
deriving DecidableEq, Repr

/-- The width of a sample. -/
inductive BitDepth where
  | single
  | double
deriving DecidableEq, Repr

namespace BitDepth

def bits : BitDepth → Nat
  | single => 32
  | double => 64

def ofBits? (bits : Nat) : Option BitDepth := [single, double].find? (fun depth => depth.bits == bits)

/-- The type of a sample in generated code. -/
def floatType : BitDepth → String
  | single => "f32"
  | double => "f64"

/-- The type of an array of samples in generated code. -/
def floatArrayType : BitDepth → String
  | single => "Float32Array"
  | double => "Float64Array"

end BitDepth

structure AudioSettings where
  channelCount : ChannelCount := ⟨2, 2⟩
  bitDepth : BitDepth := .double
deriving DecidableEq, Repr

/-- The portlets named for each node. -/
abbrev PortletSpecs := Table (List String)

/-- Settings as a compilation uses them. -/
structure Settings where
  audio : AudioSettings := {}
  arrays : Table (List Float) := ∅
  /-- The message inlets that the host calls. -/
  inletCallers : PortletSpecs := ∅
  /-- The message outlets that the host listens to. -/
  outletListeners : PortletSpecs := ∅
  /-- Variable names also show the types of their nodes. -/
  debug : Bool := false

instance : Inhabited Settings := ⟨{}⟩

structure AudioRequest where
  channelCount : Option ChannelCount
  bitDepth : Option Nat

/-- Settings as the user asks for them. -/
structure SettingsRequest where
  audio : Option AudioRequest := none
  arrays : Option (Table (List Float)) := none
  inletCallers : Option PortletSpecs := none
  outletListeners : Option PortletSpecs := none
  debug : Option Bool := none

/-- The audio settings asked for; what is left out has its default. -/
def AudioRequest.validate (request : AudioRequest) : Except CompileError AudioSettings := do
  let defaults : AudioSettings := {}
  let bitDepth ← match request.bitDepth with
    | none => pure defaults.bitDepth
    | some bits =>
      match BitDepth.ofBits? bits with
      | some depth => pure depth
      | none => throw (.settings .bitDepth)
  return ⟨request.channelCount.getD defaults.channelCount, bitDepth⟩

/-- The settings asked for; the bit depth is checked first, then the names of the arrays. -/
def SettingsRequest.validate (request : SettingsRequest) : Except CompileError Settings := do
  let audio ← match request.audio with
    | none => pure {}
    | some audio => audio.validate
  let arrays := request.arrays.getD ∅
  match arrays.keys.find? (fun name => !Text.isNamePart name) with
  | some name => throw (.settings (.arrayName name))
  | none =>
    return {
      audio, arrays
      inletCallers := request.inletCallers.getD ∅
      outletListeners := request.outletListeners.getD ∅
      debug := request.debug.getD false }

/-- The portlets of a node that a field of the settings speaks of. -/
def PortletSpec.portlets (spec : PortletSpec) (n : Node) : Table Portlet :=
  match spec with
  | inletCallers => n.inlets
  | outletListeners => n.outlets

/-- Every named node has to exist, and every named portlet has to be one of its message portlets. -/
def PortletSpec.check (spec : PortletSpec) (named : PortletSpecs) (g : Graph) : Except CompileError Unit :=
  named.entries.forM (fun (id, portlets) =>
    match g.get? id with
    | none => .error (.settings (.unknownNode spec id))
    | some n => portlets.forM (fun portlet =>
      match (spec.portlets n).get? portlet with
      | some ⟨_, .message⟩ => .ok ()
      | some ⟨_, .signal⟩ => .error (.settings (.signalPortlet spec id portlet))
      | none => .error (.settings (.missingPortlet spec id portlet))))

/-- The portlets that the host calls and listens to have to be message portlets of the graph. -/
def Settings.checkPortlets (s : Settings) (g : Graph) : Except CompileError Unit := do
  PortletSpec.inletCallers.check s.inletCallers g
  PortletSpec.outletListeners.check s.outletListeners g

end DspPatch
