import DspPatch.Draft.Dependencies
import DspPatch.Draft.Messages
import DspPatch.Draft.NodeCode
import DspPatch.Draft.Partition
import DspPatch.Draft.Portlets

/-!
The certificate of a finished draft: what has to hold of it before it is assembled.
-/
namespace DspPatch

structure Certificate where
  allFinalized : Bool
  /-- No node stands twice in the groups. -/
  groupsDisjoint : Bool
  /-- The groups hold nodes of the draft only. -/
  groupsWithinTraversal : Bool
  /-- The function of every cold group has its symbol. -/
  coldGroupsNamed : Bool
  /-- Inlined nodes are in no group and have no outlet variable. -/
  inlinedNodesElided : Bool
deriving DecidableEq, Repr

namespace Certificate

/-- The obligations by name. -/
def obligations (c : Certificate) : List (String × Bool) :=
  [("all_finalized", c.allFinalized), ("groups_disjoint", c.groupsDisjoint),
   ("groups_within_traversal", c.groupsWithinTraversal), ("cold_groups_named", c.coldGroupsNamed),
   ("inlined_nodes_elided", c.inlinedNodesElided)]

def holds (c : Certificate) : Bool := c.obligations.all Prod.snd

/-- The error that names the obligations that do not hold. -/
def failure (c : Certificate) : CompileError :=
  .verification (.obligations ((c.obligations.filter (fun entry => !entry.2)).map Prod.fst))

end Certificate

namespace Draft

/-- Check a draft against the symbols. -/
def certificate (d : Draft) (symbols : Symbols) : Certificate where
  allFinalized := d.nodes.values.all (fun n => n.stage = .finalized)
  groupsDisjoint := decide d.partition.members.Nodup
  groupsWithinTraversal := d.partition.members.all d.nodes.contains
  coldGroupsNamed := d.partition.cold.all (fun g => symbols.coldGroups.entries.get? (toString g.id) == some g.function)
  inlinedNodesElided := d.nodes.entries.all (fun (id, n) =>
    !n.inlined || (!d.partition.members.contains id && n.signalOuts.isEmpty))

/-- Make the remaining code of all nodes and check the result. -/
def finish (input : BuildInput) : Build Certificate := do
  finalizeNodeCode input
  let c := (← Build.draft).certificate (← Build.symbols)
  if c.holds then return c else throw c.failure

/-- All passes over a fresh draft. -/
def complete (input : BuildInput) : Build Certificate := do
  resolvePortlets input
  collectDependencies input
  partitionDsp input
  synthesizeMessages input
  finish input

end Draft
end DspPatch
