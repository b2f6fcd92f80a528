import DspPatch.Library.Basic

/-!
The definitions that every program begins with: `core` has the type names of the bit depth, `msg` the tags of message
tokens and the message functions of the host, and `commons` the hook that the host gets in every frame.
-/
namespace DspPatch

/-- What a token of a message holds. -/
inductive TokenKind where
  | float
  | string
deriving DecidableEq, Repr

namespace TokenKind

/-- All kinds in the order of their tags. -/
def all : List TokenKind := [float, string]

/-- The number that generated code knows the kind by. -/
def tag : TokenKind → Nat
  | float => 0
  | string => 1

/-- The local name of the constant that holds the tag. -/
def constantName : TokenKind → String
  | float => "FLOAT_TOKEN"
  | string => "STRING_TOKEN"

end TokenKind

namespace Library.Standard

def core (id : Nat) : Definition where
  id
  tag := "core"
  locals := []
  dependencies := []
  imports := []
  exports := ["getBitDepth"]
  code := fun c => do
    let depth := c.settings.audio.bitDepth
    let types := Sequence.ofCode s!"type Float = {depth.floatType}\ntype FloatArray = {depth.floatArrayType}"
    let name ← c.localSymbol "getBitDepth"
    return types.push (.function (.named name [] "Int" (.ofCode s!"return {depth.bits}")))

def msg (id : Nat) (core : Definition) : Definition where
  id
  tag := "msg"
  locals := TokenKind.all.map TokenKind.constantName
  dependencies := [core]
  imports := [
    ⟨"create", [.plain "MessageTemplate" "template"], "Message"⟩,
    ⟨"display", [.plain "Message" "m"], "String"⟩,
    ⟨"isMatching", [.plain "Message" "m", .plain "MessageTemplate" "template"], "Bool"⟩,
    ⟨"readFloatToken", [.plain "Message" "m", .plain "Int" "index"], "Float"⟩,
    ⟨"readStringToken", [.plain "Message" "m", .plain "Int" "index"], "String"⟩]
  exports := []
  code := fun c => do
    let constants ← TokenKind.all.mapM (fun kind => do
      return Element.constant (.withCode "Int" (← c.localSymbol kind.constantName) (toString kind.tag)))
    return .ofElements constants

def commons (id : Nat) (core : Definition) : Definition where
  id
  tag := "commons"
  locals := []
  dependencies := [core]
  imports := [⟨"emitFrame", [.plain "Int" "frame"], "void"⟩]
  exports := []
  code := fun _ => .ok .empty

/-- The names that no other definition may have. -/
def names : List String := ["core", "msg", "commons"]

/-- The standard definitions by name, each after those it depends on. They are made one after another, so that their
    identities are `first` and the two that follow. -/
def definitions (first : Nat) : List (String × Definition) :=
  names.zip [core first, msg (first + 1) (core first), commons (first + 2) (core first)]

end Library.Standard
end DspPatch
