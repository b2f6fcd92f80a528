import DspPatch.Json.Decode
import DspPatch.Settings.Basic

/-!
Settings as JSON documents. The record of the user's settings refuses fields it does not know; its parts do not.
-/
namespace DspPatch
open Json

def ChannelCount.decode : Decoder ChannelCount := fun room document => do
  let fields ← Fields.ofDocument? ["in", "out"] true room document
  return ⟨← fields.required "in" .word, ← fields.required "out" .word⟩

def AudioRequest.decode : Decoder AudioRequest := fun room document => do
  let fields ← Fields.ofDocument? ["channelCount", "bitDepth"] true room document
  return ⟨← fields.optional "channelCount" ChannelCount.decode, ← fields.optional "bitDepth" .word⟩

namespace SettingsRequest

def decode : Decoder SettingsRequest := fun room document => do
  let names := ["audio", "arrays", "inletCallerSpecs", "outletListenerSpecs", "debug"]
  let fields ← Fields.ofDocument? names false room document
  return {
    audio := ← fields.optional "audio" AudioRequest.decode
    arrays := ← fields.optional "arrays" (.table (.list .double))
    inletCallers := ← fields.optional "inletCallerSpecs" (.table (.list .text))
    outletListeners := ← fields.optional "outletListenerSpecs" (.table (.list .text))
    debug := ← fields.optional "debug" .flag }

/-- The settings a text asks for. -/
def read (text : String) : Except CompileError SettingsRequest :=
  match decode.run text with
  | some request => .ok request
  | none => .error (.settings .unreadable)

end SettingsRequest

namespace Settings

def toJson (s : Settings) : Value :=
  let channels := .object [("in", .nat s.audio.channelCount.input), ("out", .nat s.audio.channelCount.output)]
  .object [
    ("audio", .object [("channelCount", channels), ("bitDepth", .string (toString s.audio.bitDepth.bits))]),
    ("arrays", Value.ofTable (fun list => .array (list.map (fun x => .number (.double x)))) s.arrays),
    ("inletCallerSpecs", Value.ofTable Value.texts s.inletCallers),
    ("outletListenerSpecs", Value.ofTable Value.texts s.outletListeners),
    ("debug", .bool s.debug)]

end Settings
end DspPatch
