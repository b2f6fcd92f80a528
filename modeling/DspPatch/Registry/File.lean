import DspPatch.Json.Decode
import DspPatch.Registry.Basic

/-!
Registry files: JSON documents with the definitions and node types of a registry, whose code is given as templates.
-/
namespace DspPatch.RegistryFile
open Json

structure Arg where
  name : String
  type : String
deriving DecidableEq

structure Import where
  name : String
  args : List Arg
  returnType : String
deriving DecidableEq

/-- A shared definition. -/
structure Global where
  tag : String
  locals : List String
  code : String
  dependencies : List String
  imports : List Import
  exports : List String
deriving DecidableEq

structure Member where
  name : String
  type : String
  value : String
deriving DecidableEq

structure ReceiverCode where
  body : String
  exhaustive : Bool
deriving DecidableEq

/-- A node type. -/
structure NodeType where
  flags : Flags
  locals : List String
  state : List Member
  core : Option String
  declarations : Option String
  loop : Option String
  inletDsp : Table String
  receivers : Table ReceiverCode
  dependencies : List String
deriving DecidableEq

def Arg.decode : Decoder Arg := fun room document => do
  let fields ← Fields.ofDocument? ["name", "type"] false room document
  return ⟨← fields.required "name" .text, ← fields.required "type" .text⟩

def Import.decode : Decoder Import := fun room document => do
  let fields ← Fields.ofDocument? ["name", "args", "returnType"] false room document
  return {
    name := ← fields.required "name" .text
    args := ← fields.withDefault "args" (.list Arg.decode) []
    returnType := ← fields.withDefault "returnType" .text "void" }

def Global.decode : Decoder Global := fun room document => do
  let names := ["namespace", "locals", "code", "dependencies", "imports", "exports"]
  let fields ← Fields.ofDocument? names false room document
  return {
    tag := ← fields.required "namespace" .text
    locals := ← fields.withDefault "locals" (.list .text) []
    code := ← fields.withDefault "code" .text ""
    dependencies := ← fields.withDefault "dependencies" (.list .text) []
    imports := ← fields.withDefault "imports" (.list Import.decode) []
    exports := ← fields.withDefault "exports" (.list .text) [] }

def Member.decode : Decoder Member := fun room document => do
  let fields ← Fields.ofDocument? ["name", "type", "value"] false room document
  return ⟨← fields.required "name" .text, ← fields.required "type" .text, ← fields.required "value" .text⟩

def decodeFlags : Decoder Flags := fun room document => do
  let fields ← Fields.ofDocument? ["isPureFunction", "isLoopInline"] true room document
  return {
    isPure := ← fields.withDefault "isPureFunction" .flag false
    isInline := ← fields.withDefault "isLoopInline" .flag false }

/-- A body alone, or an object with a body. Everything inside has to denote a value, in fields that are not declared
    too. -/
def ReceiverCode.decode : Decoder ReceiverCode := fun room document => do
  let _ ← Document.value? room document
  match document with
  | .string text => return ⟨← text, false⟩
  | .object _ =>
    let fields ← Fields.ofDocument? ["body", "exhaustive"] true room document
    return ⟨← fields.required "body" .text, ← fields.withDefault "exhaustive" .flag false⟩
  | _ => none

def NodeType.decode : Decoder NodeType := fun room document => do
  let names := ["flags", "namespace", "state", "core", "declarations", "loop", "inletDsp", "messageReceivers",
    "dependencies"]
  let fields ← Fields.ofDocument? names false room document
  return {
    flags := ← fields.withDefault "flags" decodeFlags {}
    locals := ← fields.withDefault "namespace" (.list .text) []
    state := ← fields.withDefault "state" (.list Member.decode) []
    core := ← fields.optional "core" .text
    declarations := ← fields.optional "declarations" .text
    loop := ← fields.optional "loop" .text
    inletDsp := ← fields.withDefault "inletDsp" (.table .text) ∅
    receivers := ← fields.withDefault "messageReceivers" (.table ReceiverCode.decode) ∅
    dependencies := ← fields.withDefault "dependencies" (.list .text) [] }

end RegistryFile

/-- The definitions and node types of a file. -/
structure RegistryFile where
  globals : Table RegistryFile.Global
  nodes : Table RegistryFile.NodeType
deriving DecidableEq

open Json in
def RegistryFile.decode : Decoder RegistryFile := fun room document => do
  let fields ← Fields.ofDocument? ["globals", "nodes"] false room document
  return {
    globals := ← fields.withDefault "globals" (.table Global.decode) ∅
    nodes := ← fields.withDefault "nodes" (.table NodeType.decode) ∅ }

end DspPatch
