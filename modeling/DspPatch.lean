import DspPatch.CommandLine
import DspPatch.Cycles
import DspPatch.Decimal.Shortest
import DspPatch.Draft.Basic
import DspPatch.Draft.Build
import DspPatch.Draft.Certificate
import DspPatch.Draft.Cold
import DspPatch.Draft.Dependencies
import DspPatch.Draft.Fusion
import DspPatch.Draft.Messages
import DspPatch.Draft.NodeCode
import DspPatch.Draft.Partition
import DspPatch.Draft.Portlets
import DspPatch.Error
import DspPatch.Graph.Basic
import DspPatch.Graph.Integrity
import DspPatch.Graph.Json
import DspPatch.Graph.Traversal
import DspPatch.Graph.Trim
import DspPatch.Json.Decode
import DspPatch.Json.Document
import DspPatch.Json.Number
import DspPatch.Json.Value
import DspPatch.Library.Basic
import DspPatch.Library.Collect
import DspPatch.Library.Standard
import DspPatch.Main
import DspPatch.Pass
import DspPatch.Pipeline
import DspPatch.Program
import DspPatch.Proofs.Build
import DspPatch.Proofs.Cold.Components
import DspPatch.Proofs.Cold.Eligibility
import DspPatch.Proofs.Compile
import DspPatch.Proofs.Draft.Certificate
import DspPatch.Proofs.Draft.Dependencies
import DspPatch.Proofs.Draft.ExactPartition
import DspPatch.Proofs.Draft.FusedText
import DspPatch.Proofs.Draft.Fusion
import DspPatch.Proofs.Draft.FusionMeaning
import DspPatch.Proofs.Draft.Messages
import DspPatch.Proofs.Draft.NodeCode
import DspPatch.Proofs.Draft.Portlets
import DspPatch.Proofs.Draft.Split
import DspPatch.Proofs.Draft.Substitution
import DspPatch.Proofs.Draft.Triggers
import DspPatch.Proofs.Failures
import DspPatch.Proofs.FusedExpressions
import DspPatch.Proofs.GivenSymbols
import DspPatch.Proofs.Graph.Connections
import DspPatch.Proofs.Graph.FullTraversal
import DspPatch.Proofs.Graph.InlinedRun
import DspPatch.Proofs.Graph.Integrity
import DspPatch.Proofs.Graph.Interpretation
import DspPatch.Proofs.Graph.SignalWalk
import DspPatch.Proofs.Graph.Trim
import DspPatch.Proofs.Graph.TrimmedWalk
import DspPatch.Proofs.Library
import DspPatch.Proofs.MessageCalls
import DspPatch.Proofs.Names
import DspPatch.Proofs.Order
import DspPatch.Proofs.Outcome
import DspPatch.Proofs.Passes
import DspPatch.Proofs.Pipeline
import DspPatch.Proofs.Program
import DspPatch.Proofs.Recomputation
import DspPatch.Proofs.Registry
import DspPatch.Proofs.Search
import DspPatch.Proofs.Settings
import DspPatch.Proofs.SharedSymbols
import DspPatch.Proofs.Symbols
import DspPatch.Proofs.Table
import DspPatch.Proofs.Unreachable
import DspPatch.Registry.Basic
import DspPatch.Registry.File
import DspPatch.Registry.Load
import DspPatch.Scope
import DspPatch.Search
import DspPatch.Sequence.Basic
import DspPatch.Sequence.Json
import DspPatch.Sequence.Listing
import DspPatch.Settings.Basic
import DspPatch.Settings.Json
import DspPatch.Sha256
import DspPatch.Stage
import DspPatch.Symbols.Basic
import DspPatch.Symbols.Json
import DspPatch.Table
import DspPatch.Template
import DspPatch.Text.Blank
import DspPatch.Text.Lines
import DspPatch.Text.Name
import DspPatch.Proofs.Draft.Stages
import DspPatch.Proofs.Reruns
import DspPatch.Proofs.Graph.SignalInputs
import DspPatch.Proofs.StoredCertificate
import DspPatch.Proofs.Graph.ExactWalk
import DspPatch.Proofs.RegistryLoading
import DspPatch.Proofs.RegistryOrder
import DspPatch.Proofs.Draft.PortletKinds
import DspPatch.Proofs.Graph.Readers
import DspPatch.Proofs.StableSymbols
import DspPatch.Proofs.Draft.Changes
import DspPatch.Proofs.Agreement
import DspPatch.Proofs.Alike
import DspPatch.Proofs.UniformRegistry
import DspPatch.Proofs.Draft.AlikePasses
import DspPatch.Proofs.Draft.AlikeCode
import DspPatch.Proofs.DebugNames
import DspPatch.Proofs.Cycles.Invariant
import DspPatch.Proofs.Cycles.Walk
import DspPatch.Proofs.Cold.Verdicts
import DspPatch.Proofs.Draft.InletCode
import DspPatch.Proofs.Draft.CodeParts
import DspPatch.Proofs.InletCode
import DspPatch.Proofs.InletCallers
import DspPatch.Proofs.Flattening
import DspPatch.Proofs.Graph.Restriction
import DspPatch.Proofs.Graph.Building
import DspPatch.Proofs.Graph.ExactTraversal
import DspPatch.Proofs.Graph.MessageWalk
import DspPatch.Proofs.TypeTags
import DspPatch.Proofs.Draft.StateCode
import DspPatch.Proofs.StateLayouts
import DspPatch.Proofs.Template
import DspPatch.Proofs.Graph.RoundTrip
import DspPatch.Proofs.WholeNames
import DspPatch.Proofs.NormalForms
