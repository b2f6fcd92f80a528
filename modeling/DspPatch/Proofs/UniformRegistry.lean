import DspPatch.Proofs.Alike
import DspPatch.Proofs.Registry

/-!
Registries whose code does not look at names. In alike contexts the generators of a node type fail with the same error or
yield code of one shape: the same core code, the same state members, a loop that is an expression in both or in neither,
and receivers for the same inlets. Whatever was loaded from a text is such a registry (`Registry.uniform_of_read`), since
templates only copy what their placeholders stand for.
-/
namespace DspPatch

structure Implementation.Uniform (i : Implementation) : Prop where
  core : ∀ {c d : TypeContext}, c.type = d.type → c.symbols.Alike d.symbols → i.core c = i.core d
  state : ∀ {c d : NodeContext}, c.Alike d → Agree (fun ms ns => ms.map (fun m => (m.type, m.name)) =
    ns.map (fun m => (m.type, m.name))) (i.state c) (i.state d)
  declarations : ∀ {c d : NodeContext}, c.Alike d → Agree (fun _ _ => True) (i.declarations c) (i.declarations d)
  loop : ∀ {c d : NodeContext}, c.Alike d → Agree (fun a b => (a.bind Sequence.expression?).isSome =
    (b.bind Sequence.expression?).isSome) (i.loop c) (i.loop d)
  inletDsp : ∀ {c d : NodeContext}, c.Alike d → Agree (fun _ _ => True) (i.inletDsp c) (i.inletDsp d)
  receivers : ∀ {c d : NodeContext}, c.Alike d →
    Agree (Table.Related (fun a b => a.exhaustive = b.exhaustive)) (i.receivers c) (i.receivers d)

def Definition.Uniform (d : Definition) : Prop := ∀ {a b : DefinitionContext}, a.tag = b.tag → a.symbols.Alike b.symbols →
  a.settings.audio = b.settings.audio → d.code a = d.code b

structure Registry.Uniform (r : Registry) : Prop where
  types : ∀ type i, r.types.get? type = some i → i.Uniform
  definitions : ∀ d, r.Holds d → d.Uniform

namespace Template
variable {find find' : String → Option String → Except CompileError String}

/-- A template yields text of one shape if its placeholders stand for texts that fit. -/
theorem render_agree (fits : ∀ scope key, Agree Text.Fits (find scope key) (find' scope key)) (t : Template) :
    Agree (fun a b => Text.endings a.toList = Text.endings b.toList) (t.render find) (t.render find') := by
  refine Agree.bind (Agree.mapM Text.Fits (fun piece _ => ?_)) (fun _ _ parts => .ok (Text.endings_join parts))
  cases piece with
  | text content => exact .ok (.inl rfl)
  | reference scope key => exact fits scope key

theorem renderCode_agree (fits : ∀ scope key, Agree Text.Fits (find scope key) (find' scope key)) (t : Template) :
    Agree (fun a b => a.expression?.isSome = b.expression?.isSome) (t.renderCode find) (t.renderCode find') := by
  refine (t.render_agree fits).map (fun a b same => ?_)
  rw [Text.isSome_expression?_ofCode, Text.isSome_expression?_ofCode, same]

end Template

theorem Scope.common_eq {s t : Symbols} (alike : s.Alike t) (ownTag : Option String) :
    Scope.common s ownTag = Scope.common t ownTag := by
  obtain ⟨nodes, rfl, _, _⟩ := alike
  rfl

theorem TypeContext.lookup_eq {c d : TypeContext} (type : c.type = d.type) (alike : c.symbols.Alike d.symbols) :
    c.lookup = d.lookup := by
  unfold TypeContext.lookup
  rw [Scope.common_eq alike, type]
  obtain ⟨nodes, same, _, _⟩ := alike
  rw [same]

theorem DefinitionContext.lookup_eq {c d : DefinitionContext} (tag : c.tag = d.tag) (alike : c.symbols.Alike d.symbols) :
    c.lookup = d.lookup := by
  rw [DefinitionContext.lookup, DefinitionContext.lookup, Scope.common_eq alike, tag]

theorem DefinitionContext.localSymbol_eq {c d : DefinitionContext} (tag : c.tag = d.tag)
    (alike : c.symbols.Alike d.symbols) : c.localSymbol = d.localSymbol := by
  funext name
  obtain ⟨nodes, same, _, _⟩ := alike
  rw [DefinitionContext.localSymbol, DefinitionContext.localSymbol, tag, same]
  rfl

namespace RegistryFile

theorem renderOptional_agree {c d : NodeContext} (alike : c.Alike d) (template : Option Template) :
    Agree (fun a b => (a.bind Sequence.expression?).isSome = (b.bind Sequence.expression?).isSome)
      (renderOptional c.lookup template) (renderOptional d.lookup template) := by
  cases template with
  | none => exact .ok rfl
  | some t => exact (t.renderCode_agree alike.lookup).map (fun _ _ same => same)

/-- What the templates of a node type make is uniform. -/
theorem implementation_uniform (globals : Table Global) (type : String) (t : NodeType) (s : Resolver) :
    Yields (t.implementation globals type s) (fun made => made.1.Uniform) (fun _ => True) := by
  refine Yields.bind (.any _) (fun state _ => Yields.bind (.any _) (fun inletDsp _ => Yields.bind (.any _)
    (fun receivers _ => Yields.bind (.any _) (fun dependencies _ => Yields.bind (.any _) (fun core _ => Yields.bind (.any _)
      (fun declarations _ => Yields.bind (.any _) (fun loop _ => ?_)))))))
  refine ⟨fun type alike => ?_, fun alike => ?_, fun alike => ?_, fun alike => ?_, fun alike => ?_, fun alike => ?_⟩
  · show renderOptional _ core = renderOptional _ core
    rw [TypeContext.lookup_eq type alike]
  · refine (Agree.mapM (fun m n => (m.type, m.name) = (n.type, n.name)) (fun entry _ => ?_)).mono
      (fun _ _ _ _ => map_eq_map_of_forall₂ _ _)
    exact (entry.2.render_agree alike.lookup).bind (fun _ _ _ => .ok rfl)
  · exact (renderOptional_agree alike declarations).mono (fun _ _ _ _ _ => trivial)
  · exact renderOptional_agree alike loop
  · refine (Agree.mapM (fun _ _ => True) (fun entry _ => ?_)).bind (fun _ _ _ => .ok trivial)
    exact (entry.2.2.renderCode_agree alike.lookup).bind (fun _ _ _ => .ok trivial)
  · refine (Agree.mapM (fun a b => a.1 = b.1 ∧ a.2.exhaustive = b.2.exhaustive) (fun entry _ => ?_)).bind
      (fun _ _ pairs => .ok (.ofList pairs))
    exact (entry.2.2.renderCode_agree alike.lookup).bind (fun _ _ _ => .ok ⟨rfl, rfl⟩)

theorem NodeType.Makes.uniform {t : NodeType} {type : String} {i : Implementation} (makes : t.Makes type i) : i.Uniform := by
  obtain ⟨core, state, declarations, loop, inletDsp, receivers⟩ := (implementation_uniform ∅ type t.bare ⟨0, ∅⟩).of_eq_ok makes
  exact ⟨core, state, declarations, loop, inletDsp, receivers⟩

theorem Global.Makes.uniform {g : Global} {name : String} {known : Table Definition} {d : Definition}
    (makes : g.Makes name known d) : d.Uniform := by
  obtain ⟨code, _, same⟩ := makes.code
  intro a b tag alike _
  rw [same]
  show code.renderCode a.lookup = code.renderCode b.lookup
  rw [DefinitionContext.lookup_eq tag alike]

end RegistryFile

theorem Library.Standard.uniform (first : Nat) : ∀ entry ∈ definitions first, entry.2.Uniform := by
  refine List.forall_mem_cons.mpr ⟨?_, List.forall_mem_cons.mpr ⟨?_, List.forall_mem_cons.mpr ⟨?_, List.forall_mem_nil _⟩⟩⟩
  · intro a b tag alike audio
    simp only [core, audio, DefinitionContext.localSymbol_eq tag alike]
  · intro a b tag alike _
    simp only [msg, DefinitionContext.localSymbol_eq tag alike]
  · exact fun _ _ _ => rfl

theorem Registry.uniform_of_read {first : Nat} {text : String} {r : Registry} (read : Registry.read first text = .ok r) :
    r.Uniform := by
  obtain ⟨file, _, loaded⟩ := Registry.read_eq_ok_iff.mp read
  obtain ⟨_, known, linked⟩ := (file.registry_linked first).of_eq_ok loaded
  refine ⟨fun type i stored => ?_, fun d held => ?_⟩
  · have declared : type ∈ file.nodes.keys := linked.types ▸ Table.mem_keys_of_get? stored
    obtain ⟨t, found⟩ := Table.mem_keys_iff.mp declared
    obtain ⟨i', stored', makes, _⟩ := linked.nodes found
    cases stored.symm.trans stored'
    exact makes.uniform
  · obtain ⟨name, isKnown⟩ := linked.known_of_holds held
    rcases linked.origin isKnown with standard | ⟨g, _, makes⟩
    · exact Library.Standard.uniform r.first _ standard
    · exact makes.uniform

end DspPatch
