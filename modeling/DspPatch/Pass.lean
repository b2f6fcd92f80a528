/-!
The passes of a compilation, what each of them needs and what it makes. A pass needs only passes of a lower rank, so the
passes that lead to one can be put in order.
-/
namespace DspPatch

inductive Pass where
  | validateSettings
  | buildTraversal
  | allocateNames
  | resolvePortlets
  | collectDependencies
  | partitionDsp
  | synthesizeMessages
  | generateNodeCode
  | assemble
deriving DecidableEq, Repr

/-- What a pass makes or changes. -/
inductive Artifact where
  | settings
  | traversal
  | trimmedGraph
  | names
  | precompiled
  | cert
  | program
deriving DecidableEq, Repr

def Artifact.name : Artifact → String
  | settings => "Settings"
  | traversal => "Traversal"
  | trimmedGraph => "TrimmedGraph"
  | names => "Names"
  | precompiled => "Precompiled"
  | cert => "Cert"
  | program => "Program"

namespace Pass

/-- All passes in the order in which they run. -/
def all : List Pass :=
  [validateSettings, buildTraversal, allocateNames, resolvePortlets, collectDependencies, partitionDsp,
   synthesizeMessages, generateNodeCode, assemble]

def name : Pass → String
  | validateSettings => "validate_settings"
  | buildTraversal => "build_traversal"
  | allocateNames => "allocate_names"
  | resolvePortlets => "resolve_portlets"
  | collectDependencies => "collect_dependencies"
  | partitionDsp => "partition_dsp"
  | synthesizeMessages => "synthesize_messages"
  | generateNodeCode => "generate_node_code"
  | assemble => "assemble"

def ofName? (text : String) : Option Pass := all.find? (fun pass => pass.name == text)

/-- The passes whose artifacts a pass uses. -/
def inputs : Pass → List Pass
  | validateSettings => []
  | buildTraversal => [validateSettings]
  | allocateNames => [buildTraversal]
  | resolvePortlets => [allocateNames]
  | collectDependencies => [resolvePortlets]
  | partitionDsp => [collectDependencies]
  | synthesizeMessages => [partitionDsp]
  | generateNodeCode => [synthesizeMessages]
  | assemble => [generateNodeCode]

def outputs : Pass → List Artifact
  | validateSettings => [.settings]
  | buildTraversal => [.traversal, .trimmedGraph]
  | allocateNames => [.names]
  | resolvePortlets => [.precompiled, .names]
  | collectDependencies => [.precompiled, .names]
  | partitionDsp => [.precompiled, .names]
  | synthesizeMessages => [.precompiled, .names]
  | generateNodeCode => [.precompiled, .cert]
  | assemble => [.program]

/-- The place of a pass among all. -/
def rank (pass : Pass) : Nat := pass.ctorIdx

theorem rank_lt_of_mem_inputs {input pass : Pass} (needed : input ∈ pass.inputs) : input.rank < pass.rank := by
  revert needed
  cases pass <;> cases input <;> decide

/-- The passes that lead to a pass, each after those it needs, and the pass itself at the end. -/
def required (pass : Pass) : List Pass :=
  pass.inputs.attach.foldl (fun order input => order ++ input.1.required.filter (fun p => p ∉ order)) [] ++ [pass]
termination_by pass.rank
decreasing_by exact rank_lt_of_mem_inputs input.2

end Pass
end DspPatch
