import DspPatch.Json.Value
import DspPatch.Library.Standard

/-!
Node types and their implementations. An implementation is a set of code generators, which see a node or a type in its
context, with the definitions that the code depends on; a registry holds the implementations by node type, next to the
standard definitions that were made for it.
-/
namespace DspPatch

structure Flags where
  /-- The output depends on inputs and state only, so that the node may run outside the frame loop. -/
  isPure : Bool := false
  /-- The loop code is one expression that may stand in the place where it is used. -/
  isInline : Bool := false
deriving DecidableEq, Repr

def Flags.toJson (f : Flags) : Json.Value :=
  .object [("isPureFunction", .bool f.isPure), ("isLoopInline", .bool f.isInline)]

/-- One member of a node's state, with its first value as code. -/
structure StateMember where
  name : String
  type : String
  value : String
deriving DecidableEq, Repr

/-- What a message inlet does with a message. -/
structure Receiver where
  body : Sequence
  /-- The body returns for every message. -/
  exhaustive : Bool

/-- The code generators of a node type. -/
structure Implementation where
  flags : Flags := {}
  /-- Local names that get symbols under the tag of the type. -/
  locals : List String := []
  /-- Code shared by all nodes of the type. -/
  core : TypeContext → Except CompileError (Option Sequence) := fun _ => .ok none
  state : NodeContext → Except CompileError (List StateMember) := fun _ => .ok []
  declarations : NodeContext → Except CompileError (Option Sequence) := fun _ => .ok none
  /-- Code that runs in every frame. -/
  loop : NodeContext → Except CompileError (Option Sequence) := fun _ => .ok none
  /-- Code that runs again when the source of an inlet changes. -/
  inletDsp : NodeContext → Except CompileError (Table Sequence) := fun _ => .ok ∅
  receivers : NodeContext → Except CompileError (Table Receiver) := fun _ => .ok ∅
  /-- The definitions that the code needs. -/
  dependencies : List Definition := []

structure Registry where
  /-- The identity of the first standard definition. -/
  first : Nat
  types : Table Implementation

namespace Registry

/-- No node types. -/
def empty : Registry := ⟨0, ∅⟩

instance : Inhabited Registry := ⟨empty⟩

/-- The standard definitions of the registry. -/
def standard (r : Registry) : List Definition := (Library.Standard.definitions r.first).map Prod.snd

/-- Add a node type; a type of the same name is replaced in its place. -/
def register (r : Registry) (type : String) (implementation : Implementation) : Registry :=
  { r with types := r.types.insert type implementation }

def implementation (r : Registry) (n : Node) : Except CompileError Implementation :=
  match r.types.get? n.type with
  | some implementation => .ok implementation
  | none => .error (.implementation n.type (.atNode n.id) .unknownType)

/-- The node types with their flags, sorted by type. -/
def text (r : Registry) : String :=
  let sorted := r.types.entries.mergeSort (fun a b => !(b.1 < a.1))
  (Json.Value.object (sorted.map (fun entry => (entry.1, Flags.toJson entry.2.flags)))).compact

end Registry
end DspPatch
