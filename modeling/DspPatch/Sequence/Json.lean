import DspPatch.Json.Value
import DspPatch.Sequence.Basic

/-!
Sequences as JSON values. An element is an object with its kind and its value.
-/
namespace DspPatch
open Json

/-- An element of the given kind. -/
def Element.tagged (kind : String) (value : Value) : Value :=
  .object [("astType", .string kind), ("value", value)]

mutual

def Element.toJson : Element → Value
  | .code text => Element.tagged "Code" (.string text)
  | .variable v => Element.tagged "Var" v.toJson
  | .constant v => Element.tagged "ConstVar" v.toJson
  | .function f => Element.tagged "Func" f.toJson
  | .record c => Element.tagged "Class" c.toJson
  | .frameLoop l => Element.tagged "Loop" l.toJson

def Element.listToJson : List Element → List Value
  | [] => []
  | element :: rest => element.toJson :: Element.listToJson rest

def Var.toJson : Var → Value
  | ⟨type, name, value⟩ =>
    .object [("type", .string type), ("name", .string name), ("value", Sequence.optionToJson value)]

def Var.listToJson : List Var → List Value
  | [] => []
  | v :: rest => v.toJson :: Var.listToJson rest

def Func.toJson : Func → Value
  | ⟨name, args, returnType, body⟩ =>
    .object [("name", .ofText? name), ("args", .array (Var.listToJson args)), ("returnType", .string returnType),
      ("body", body.toJson)]

def Class.toJson : Class → Value
  | ⟨name, members⟩ => .object [("name", .string name), ("members", .array (Var.listToJson members))]

def FrameLoop.toJson : FrameLoop → Value
  | ⟨iter, blockSize, frame, frameHook, body⟩ =>
    .object [("iter", .string iter), ("block_size", .string blockSize), ("frame", .string frame),
      ("frameHook", .string frameHook), ("body", body.toJson)]

def Sequence.toJson : Sequence → Value
  | ⟨content⟩ => .object [("content", .array (Element.listToJson content))]

def Sequence.optionToJson : Option Sequence → Value
  | none => .null
  | some s => s.toJson

end

end DspPatch
