/-!
How far the code of a node has come. Each pass over a draft expects every node at one stage and leaves it at the next.
-/
namespace DspPatch

/-- Progress of one node's code. -/
inductive Stage where
  | untouched
  | portletsResolved
  | dependenciesCollected
  | dspPartitioned
  | messagesSynthesized
  | finalized
deriving DecidableEq, Repr, Inhabited

namespace Stage

/-- All stages in order. -/
def all : List Stage :=
  [untouched, portletsResolved, dependenciesCollected, dspPartitioned, messagesSynthesized, finalized]

/-- The stage's name in messages. -/
def name : Stage → String
  | untouched => "untouched"
  | portletsResolved => "portlets-resolved"
  | dependenciesCollected => "dependencies-collected"
  | dspPartitioned => "dsp-partitioned"
  | messagesSynthesized => "messages-synthesized"
  | finalized => "finalized"

/-- The stage with the given name. -/
def ofName? (text : String) : Option Stage := all.find? (fun stage => stage.name == text)

end Stage
end DspPatch
