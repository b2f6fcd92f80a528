import DspPatch.Library.Collect
import DspPatch.Registry.Basic

/-!
A draft: the code of a program while it is being made. It begins with an untouched entry for every node that runs, and
each pass fills in its part. A partition splits the nodes that carry signals into the hot group, which runs in every
frame, and cold groups, which run when a message has reached one of their members.
-/
namespace DspPatch

/-- How code sends on a message outlet. -/
structure Sender where
  symbol : String
  /-- The functions that a message goes to, in order. -/
  callees : List String
  /-- A function has to be written under the symbol. -/
  needsFunction : Bool
deriving DecidableEq, Repr

structure NodeState where
  symbol : String
  className : String
  members : List StateMember
deriving DecidableEq, Repr

/-- The code of one node. -/
structure NodeDraft where
  type : String
  stage : Stage := .untouched
  /-- The expressions that feed the signal inlets. -/
  signalIns : Table String := ∅
  /-- The variables of the signal outlets. -/
  signalOuts : Table String := ∅
  /-- For each message outlet the callees that its connections give. -/
  senderPlans : Table (List String) := ∅
  senders : Table Sender := ∅
  receivers : Table Func := ∅
  state : Option NodeState := none
  initialization : Option Sequence := none
  loop : Option Sequence := none
  /-- The loop code has been made, possibly to nothing. -/
  loopResolved : Bool := false
  inletDsp : Table Sequence := ∅
  /-- The loop expression stands in the sink, so that the node has neither loop code nor outlet variable. -/
  inlined : Bool := false

/-- Nodes that run together, in order, and those of them whose output is used elsewhere. -/
structure Group where
  traversal : List String
  outNodes : List String
deriving DecidableEq, Repr

/-- A group that runs when its function is called. -/
structure ColdGroup where
  id : Nat
  group : Group
  /-- The signal connections that leave the group. -/
  sinkConnections : List Connection
  function : String
deriving DecidableEq, Repr

structure Partition where
  /-- All nodes that run, in order. -/
  full : List String
  hot : Group
  cold : List ColdGroup
deriving DecidableEq, Repr

namespace Partition

/-- Nothing is split yet. -/
def start (full : List String) : Partition := ⟨full, ⟨[], []⟩, []⟩

/-- The hot group and the cold groups. -/
def groups (p : Partition) : List Group := p.hot :: p.cold.map ColdGroup.group

/-- The nodes of all groups, group by group. -/
def members (p : Partition) : List String := p.groups.flatMap Group.traversal

/-- The function of the cold group that holds a node; of several groups the last one counts. -/
def trigger? (p : Partition) (id : String) : Option String :=
  (p.cold.reverse.find? (fun g => g.group.traversal.contains id)).map ColdGroup.function

end Partition

/-- The code shared by all nodes of a type. -/
structure TypeDraft where
  stateClass : Option Class := none
  core : Option Sequence := none

/-- A function through which the host sends to an inlet. -/
structure InletCaller where
  node : String
  inlet : String
  symbol : String
  receiver : String
  /-- The function of the cold group that has to run afterwards. -/
  coldTrigger : Option String
deriving DecidableEq, Repr

structure Draft where
  /-- In the order in which nodes run. -/
  nodes : Table NodeDraft
  /-- In the order in which types first occur. -/
  types : Table TypeDraft
  shared : SharedCode
  partition : Partition
  inletCallers : List InletCaller

namespace Draft

/-- A function of one message. -/
def messageFunction (symbol : String) (body : Sequence) : Func := .named symbol [.plain "Message" "m"] "void" body

/-- An untouched entry for every node of a traversal; all of them have to exist. -/
def start (g : Graph) (traversal : List String) : Except CompileError Draft := do
  let nodes ← traversal.mapM (fun id => do return (id, ({ type := (← g.node id).type } : NodeDraft)))
  return ⟨.ofList nodes, ∅, .empty, .start traversal, []⟩

def node (d : Draft) (id : String) : Except CompileError NodeDraft :=
  match d.nodes.get? id with
  | some n => .ok n
  | none => .error (.unassigned "precompiledNodes" id)

def modifyNode (d : Draft) (id : String) (f : NodeDraft → NodeDraft) : Draft :=
  { d with nodes := d.nodes.modify id f }

/-- All nodes have to be at a stage. -/
def expectStage (d : Draft) (expected : Stage) : Except CompileError Unit :=
  d.nodes.entries.forM (fun (id, n) =>
    if n.stage = expected then .ok () else .error (.passOrder id expected n.stage))

/-- Put all nodes at a stage. -/
def atStage (d : Draft) (stage : Stage) : Draft :=
  { d with nodes := d.nodes.map (fun n => { n with stage }) }

end Draft
end DspPatch
