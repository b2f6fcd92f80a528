import DspPatch.Proofs.Compile
import DspPatch.Proofs.Draft.ExactPartition
import DspPatch.Registry.Load

/-!
What a compilation can fail with. On a well-formed graph, with a registry whose generators succeed wherever they find
what they may read, a compilation ends with a program whose certificate holds, or it refuses settings, a name, a missing
implementation or two nodes of one type with different states. No pass misses what another one should have left.
-/
namespace DspPatch

/-- A compilation of a well-formed graph fails in an expected way only, and if it succeeds its certificate holds. -/
theorem only_expected_failures {g : Graph} {r : Registry} (accepted : g.checkIntegrity = .ok ())
    (keyed : g.PortletsKeyed) (kinds : g.KindsAgree) (total : r.Total g) (request : SettingsRequest) :
    (∀ pass e, compile g r request = .error (pass, e) → Expected g r request pass e) ∧
    ∀ program, compile g r request = .ok program → ∃ certificate,
      (Compilation.run { graph := g, registry := r, request } .assemble).2.certificate = some certificate ∧
      ∀ obligation ∈ certificate.obligations, obligation.2 = true := by
  have outcome := compile_outcome g r request
  constructor
  · intro pass e failed
    exact outcome.of_eq_error failed (Graph.wellFormed_of_checks accepted keyed kinds) total
  · intro program compiled
    obtain ⟨d, _, _, certificate, holds, _⟩ := outcome.of_eq_ok compiled
    exact ⟨_, certificate, List.all_eq_true.mp holds⟩

/-- A node type with a template for its loop and no other code. -/
structure LoopType where
  type : String
  flags : Flags := {}
  locals : List String := []
  loop : Template

def LoopType.implementation (t : LoopType) : Implementation where
  flags := t.flags
  locals := t.locals
  loop := fun c => RegistryFile.renderOptional c.lookup (some t.loop)

def loopRegistry (types : List LoopType) : Registry := ⟨0, .ofList (types.map (fun t => (t.type, t.implementation)))⟩

/-- Templates that read nothing but what their nodes declare can be rendered whenever they are. -/
theorem loopRegistry_total {types : List LoopType} {g : Graph} (keyed : ∀ {id n}, g.get? id = some n → n.id = id)
    (inScope : ∀ n ∈ g.nodes.values, ∀ t ∈ types, t.type = n.type →
      ∀ piece ∈ t.loop.pieces, n.inScope t.implementation piece = true) : (loopRegistry types).Total g := by
  have known : ∀ {type i}, (loopRegistry types).types.get? type = some i →
      ∃ t ∈ types, t.type = type ∧ t.implementation = i := by
    intro type i found
    obtain ⟨t, listed, same⟩ := List.mem_map.mp (Table.mem_of_get?_ofList found)
    cases same
    exact ⟨t, listed, rfl, rfl⟩
  have loops : ∀ {full : List String} {i : Implementation} {c : NodeContext} {e : CompileError},
      c.Serves (g.trim full) (loopRegistry types) i → i.loop c ≠ .error e := by
    intro full i c e served failed
    obtain ⟨t, listed, type, rfl⟩ := known served.type.registered
    obtain ⟨n, found, _, trimmed⟩ := (Graph.get?_trim keyed).mp served.node
    have same : n.type = c.node.type ∧ c.node.inScope t.implementation = n.inScope t.implementation := by
      rw [← trimmed]
      exact ⟨rfl, rfl⟩
    obtain ⟨text, rendered⟩ := served.renders (t := t.loop) (fun piece member => by
      rw [same.2]
      exact inScope n (Table.mem_values_iff.mpr ⟨_, found⟩) t listed (type.trans same.1.symm) piece member)
    simp [LoopType.implementation, RegistryFile.renderOptional, Template.renderCode, rendered, Except.map] at failed
  constructor
  · intro full type i registered e raised
    obtain ⟨t, _, _, rfl⟩ := known registered
    cases raised with
    | core _ failed => cases failed
    | inline served _ failed => exact loops served failed
    | node served _ failed =>
      rcases failed with failed | failed | failed | failed | failed
      · cases failed
      · cases failed
      · exact loops served failed
      · cases failed
      · cases failed
  · rintro d (standard | ⟨type, i, found, root, needed, _⟩) other
    · exact absurd standard other
    · obtain ⟨t, _, _, rfl⟩ := known found
      cases needed

/-- Types for the sample patch, whose loops read inlets, variables, states and local names. -/
def sampleLoops : List LoopType := [
  { type := "osc", locals := ["tick"],
    loop := ⟨[.reference "outs" (some "0"), .text " = ", .reference "ns" (some "tick"), .text "()"]⟩ },
  { type := "half", flags := ⟨true, true⟩, loop := ⟨[.reference "ins" (some "0"), .text " * 0.5"]⟩ },
  { type := "num", flags := ⟨true, false⟩,
    loop := ⟨[.reference "outs" (some "0"), .text " = ", .reference "state" none, .text ".value"]⟩ },
  { type := "double", flags := ⟨true, true⟩, loop := ⟨[.reference "ins" (some "0"), .text " * 2"]⟩ },
  { type := "shape", flags := ⟨true, false⟩,
    loop := ⟨[.reference "outs" (some "0"), .text " = clip(", .reference "ins" (some "0"), .text ")"]⟩ },
  { type := "out",
    loop := ⟨[.text "play(", .reference "ins" (some "0"), .text ", ", .reference "ins" (some "1"), .text ")"]⟩ }]

/-- A request for a caller of a node that is not there. -/
def strayRequest : SettingsRequest := { inletCallers := some (.ofList [("ghost", ["0"])]) }

/-- The loops can be made wherever they are. The sample patch compiles, and a stray request is refused as one. -/
theorem only_expected_failures_sample :
    (loopRegistry sampleLoops).Total Draft.samplePatch ∧
    (∃ program certificate, compile Draft.samplePatch (loopRegistry sampleLoops) {} = .ok program ∧
      (Compilation.run { graph := Draft.samplePatch, registry := loopRegistry sampleLoops, request := {} }
        .assemble).2.certificate = some certificate ∧
      ∀ obligation ∈ certificate.obligations, obligation.2 = true) ∧
    ∃ pass e, compile Draft.samplePatch (loopRegistry sampleLoops) strayRequest = .error (pass, e) ∧
      Expected Draft.samplePatch (loopRegistry sampleLoops) strayRequest pass e := by
  have accepted : Draft.samplePatch.checkIntegrity = .ok () := by decide +kernel
  have keyed : Draft.samplePatch.PortletsKeyed := by decide +kernel
  have kinds : Draft.samplePatch.KindsAgree := by decide +kernel
  have wf := Graph.wellFormed_of_checks accepted keyed kinds
  have total : (loopRegistry sampleLoops).Total Draft.samplePatch := loopRegistry_total wf.keyed (by decide +kernel)
  have facts := only_expected_failures accepted keyed kinds total
  refine ⟨total, ?_, ?_⟩
  · have succeeds : (compile Draft.samplePatch (loopRegistry sampleLoops) {}).isOk = true := by decide +kernel
    cases compiled : compile Draft.samplePatch (loopRegistry sampleLoops) {} with
    | error failure =>
      rw [compiled] at succeeds
      cases succeeds
    | ok program =>
      obtain ⟨certificate, made, holds⟩ := (facts {}).2 program compiled
      exact ⟨program, certificate, rfl, made, holds⟩
  · have fails : (compile Draft.samplePatch (loopRegistry sampleLoops) strayRequest).isOk = false := by decide +kernel
    cases compiled : compile Draft.samplePatch (loopRegistry sampleLoops) strayRequest with
    | error failure => exact ⟨failure.1, failure.2, rfl, (facts strayRequest).1 _ _ compiled⟩
    | ok program =>
      rw [compiled] at fails
      cases fails

end DspPatch
