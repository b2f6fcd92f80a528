import DspPatch.Draft.Portlets
import DspPatch.Graph.Trim
import DspPatch.Proofs.Flattening
import DspPatch.Template

/-!
The contexts that code is made in. Before a generator runs, its type has a tag with all local names under it, all that the
code depends on has its symbols, and a node has its variables, its inlet expressions and its receivers; senders are there
for all but the loops that are made in order to be fused. A registry is total for a graph if no generator fails in such a
context (`Registry.Total`). What happens in other contexts does not matter, so that templates may read what their node
declares (`NodeContext.Serves.renders`).
-/
namespace DspPatch

theorem Symbols.Knows.mono {s t : Symbols} {d : Definition} (knows : s.Knows d) (grows : s.Grows t) : t.Knows d :=
  fun own member => grows.present (knows own member)

/-- An identity stands for one definition of the registry. -/
def Registry.Unambiguous (r : Registry) : Prop := ∀ d e, r.Holds d → r.Holds e → d.id = e.id → d = e

/-- The standard definitions, the given ones and all that they need have their symbols, provided that no two definitions
    share an identity. -/
def Symbols.KnowsAll (s : Symbols) (r : Registry) (ds : List Definition) : Prop :=
  r.Unambiguous → ∀ d, Definition.Reaches (r.standard ++ ds) d → s.Knows d

/-- If all that is listed for some roots has symbols, so has all that one of them or what it needs depends on. -/
theorem Symbols.knowsAll_of_flatten {s : Symbols} {r : Registry} {roots ds : List Definition}
    (held : ∀ root ∈ roots, r.Holds root) (inside : ∀ d ∈ ds, Definition.Reaches (r.standard ++ roots) d)
    (listed : ∀ d ∈ Definition.flatten (r.standard ++ roots), s.Knows d) : s.KnowsAll r ds := by
  rintro once d ⟨first, member, chain⟩
  have unambiguous : Definition.Unambiguous (r.standard ++ roots) := fun d e reached reached' =>
    once d e (Registry.holds_of_reaches held reached) (Registry.holds_of_reaches held reached')
  refine listed d ((Definition.mem_flatten_iff unambiguous).mpr ?_)
  rcases List.mem_append.mp member with standard | given
  · exact ⟨first, List.mem_append_left _ standard, chain⟩
  · obtain ⟨root, isRoot, before⟩ := inside first given
    exact ⟨root, isRoot, before.trans chain⟩

/-- The type has a tag, and the local names have symbols under it. -/
def Symbols.KnowsType (s : Symbols) (type : String) (locals : List String) : Prop :=
  ∃ tag, s.at? (.typeTag type) = some tag ∧ ∀ name ∈ locals, s.at? (.global tag name) ≠ none

theorem Symbols.KnowsType.mono {s t : Symbols} {type : String} {locals : List String} (knows : s.KnowsType type locals)
    (grows : s.Grows t) : t.KnowsType type locals := by
  obtain ⟨tag, given, named⟩ := knows
  exact ⟨tag, grows.kept given, fun name member => grows.present (named name member)⟩

/-- What the code of a node type may read. -/
structure Symbols.ServesType (s : Symbols) (r : Registry) (type : String) (i : Implementation) : Prop where
  registered : r.types.get? type = some i
  locals : s.KnowsType type i.locals
  definitions : s.KnowsAll r i.dependencies

theorem Symbols.ServesType.mono {s t : Symbols} {r : Registry} {type : String} {i : Implementation}
    (serves : s.ServesType r type i) (grows : s.Grows t) : t.ServesType r type i :=
  ⟨serves.registered, serves.locals.mono grows, fun once d reached => (serves.definitions once d reached).mono grows⟩

/-- What the code of a node may read. -/
structure NodeContext.Serves (c : NodeContext) (g : Graph) (r : Registry) (i : Implementation) : Prop where
  node : g.get? c.node.id = some c.node
  type : c.symbols.ServesType r c.node.type i
  state : c.symbols.at? (.state c.node.id) ≠ none
  ins : ∀ inlet ∈ c.node.inletsOf .signal, c.signalIns.get? inlet.id ≠ none
  outs : ∀ outlet ∈ c.node.outletsOf .signal, c.symbols.at? (.portlet .outs c.node.id outlet.id) ≠ none
  rcvs : ∀ inlet ∈ c.node.inletsOf .message,
    Draft.receives ((c.settings.inletCallers.get? c.node.id).getD []) c.node inlet.id = true →
    c.symbols.at? (.portlet .rcvs c.node.id inlet.id) ≠ none

theorem NodeContext.Serves.mono {n : Node} {s t : Symbols} {settings : Settings} {before after : Table String} {g : Graph}
    {r : Registry} {i : Implementation} (serves : (⟨n, s, settings, before⟩ : NodeContext).Serves g r i) (grows : s.Grows t)
    (keys : after.keys = before.keys) : (⟨n, t, settings, after⟩ : NodeContext).Serves g r i := by
  refine ⟨serves.node, serves.type.mono grows, grows.present serves.state, fun inlet member => ?_,
    fun outlet member => grows.present (serves.outs outlet member),
    fun inlet member receives => grows.present (serves.rcvs inlet member receives)⟩
  rw [Option.ne_none_iff_exists', ← Table.mem_keys_iff, keys, Table.mem_keys_iff, ← Option.ne_none_iff_exists']
  exact serves.ins inlet member

/-- The symbols to send with are there as well. -/
def NodeContext.Sends (c : NodeContext) : Prop :=
  ∀ outlet ∈ c.node.outletsOf .message, c.symbols.at? (.portlet .snds c.node.id outlet.id) ≠ none

/-- The piece of a template reads something that is there for every piece of code of the node. -/
def Node.inScope (n : Node) (i : Implementation) : Piece → Bool
  | .text _ => true
  | .reference scope key =>
    scope == "state" && key.isNone || scope == "ins" && (n.inletsOf .signal).any (fun inlet => key == some inlet.id) ||
      scope == "outs" && (n.outletsOf .signal).any (fun outlet => key == some outlet.id) ||
      scope == "args" && key.any n.args.contains || scope == "ns" && key.any i.locals.contains

namespace NodeContext.Serves
variable {c : NodeContext} {g : Graph} {r : Registry} {i : Implementation} (serves : c.Serves g r i)
include serves

theorem lookup {scope : String} {key : Option String} (inScope : c.node.inScope i (.reference scope key) = true) :
    ∃ text, c.lookup scope key = .ok text := by
  simp only [Node.inScope, Bool.or_eq_true, Bool.and_eq_true, beq_iff_eq, List.any_eq_true, Option.any_eq_true,
    Option.isNone_iff_eq_none, Table.contains_iff, List.contains_iff_mem] at inScope
  rcases inScope with (((⟨rfl, rfl⟩ | ⟨rfl, inlet, declared, rfl⟩) | ⟨rfl, outlet, declared, rfl⟩) |
    ⟨rfl, name, rfl, given⟩) | ⟨rfl, name, rfl, declared⟩
  · obtain ⟨symbol, stored⟩ := Option.ne_none_iff_exists'.mp serves.state
    obtain ⟨symbols, stored, _⟩ := Option.map_eq_some_iff.mp stored
    exact ⟨symbols.state, by
      simp [NodeContext.lookup, NodeContext.state, Symbols.node, stored, bind, Except.bind, pure, Except.pure]⟩
  · obtain ⟨expression, stored⟩ := Option.ne_none_iff_exists'.mp (serves.ins inlet declared)
    exact ⟨expression, by simp [NodeContext.lookup, Scope.needKey, NodeContext.ins, stored, bind, Except.bind]⟩
  · obtain ⟨symbol, stored⟩ := Option.ne_none_iff_exists'.mp (serves.outs outlet declared)
    exact ⟨symbol, by simp [NodeContext.lookup, Scope.needKey, Symbols.portlet_eq_ok_iff.mpr stored, bind, Except.bind]⟩
  · obtain ⟨value, stored⟩ := Table.mem_keys_iff.mp given
    exact ⟨Scope.argText value, by simp [NodeContext.lookup, Scope.needKey, arg, stored, bind, Except.bind]⟩
  · obtain ⟨tag, tagged, locals⟩ := serves.type.locals
    obtain ⟨symbol, stored⟩ := Option.ne_none_iff_exists'.mp (locals name declared)
    have own : c.symbols.typeTags.get? c.node.type = some tag := tagged
    exact ⟨symbol, by
      simp [NodeContext.lookup, Scope.common, Scope.needKey, own, Symbols.global_eq_ok_iff.mpr stored, bind, Except.bind]⟩

/-- A template that reads nothing but what is in scope always has a text. -/
theorem renders {t : Template} (inScope : ∀ piece ∈ t.pieces, c.node.inScope i piece = true) :
    ∃ text, t.render c.lookup = .ok text := by
  have parts : Yields (t.pieces.mapM (fun
      | .text content => .ok content
      | .reference scope key => c.lookup scope key)) (List.Forall₂ (fun _ _ => True) t.pieces) (fun _ => False) := by
    refine Yields.mapM (fun piece member => ?_)
    cases piece with
    | text content => trivial
    | reference scope key =>
      obtain ⟨text, found⟩ := serves.lookup (inScope _ member)
      exact .of_ok found trivial
  obtain ⟨texts, found, _⟩ := parts.exists_ok
  exact ⟨String.join texts, bind_eq_ok_iff.mpr ⟨texts, found, rfl⟩⟩

end NodeContext.Serves

/-- What the code of a definition may read. -/
structure DefinitionContext.Serves (c : DefinitionContext) (r : Registry) (d : Definition) : Prop where
  tag : c.tag = d.tag
  own : c.symbols.Knows d
  definitions : c.symbols.KnowsAll r [d]

/-- A generator for nodes fails in the context. -/
def Implementation.Fails (i : Implementation) (c : NodeContext) (e : CompileError) : Prop :=
  i.state c = .error e ∨ i.declarations c = .error e ∨ i.loop c = .error e ∨ i.inletDsp c = .error e ∨
    i.receivers c = .error e

/-- A generator of a node type fails although its context serves it. -/
inductive Implementation.Raises (i : Implementation) (g : Graph) (r : Registry) (e : CompileError) : Prop where
  | core {c : TypeContext} (served : c.symbols.ServesType r c.type i) (failed : i.core c = .error e)
  /-- An inline loop is made to be fused when there are no senders yet. -/
  | inline {c : NodeContext} (served : c.Serves g r i) (isInline : i.flags.isInline = true) (failed : i.loop c = .error e)
  | node {c : NodeContext} (served : c.Serves g r i) (sends : c.Sends) (failed : i.Fails c e)

/-- The generator of a definition fails although its context serves it. -/
def Definition.Raises (d : Definition) (r : Registry) (e : CompileError) : Prop :=
  ∃ c : DefinitionContext, c.Serves r d ∧ d.code c = .error e

/-- The standard definitions can always be made: all they read is their own names. -/
theorem Library.Standard.not_raises {r : Registry} {d : Definition} (standard : d ∈ r.standard) {e : CompileError} :
    ¬d.Raises r e := by
  rintro ⟨c, served, failed⟩
  have read : ∀ name ∈ d.names, ∃ symbol, c.localSymbol name = .ok symbol := by
    intro name member
    obtain ⟨symbol, stored⟩ := Option.ne_none_iff_exists'.mp (served.own name member)
    exact ⟨symbol, Symbols.global_eq_ok_iff.mpr (served.tag ▸ stored)⟩
  rcases Registry.mem_standard.mp standard with rfl | rfl | rfl
  · obtain ⟨symbol, result⟩ := read "getBitDepth" (show _ ∈ (core 0).names by decide)
    simp [core, result, bind, Except.bind, pure, Except.pure] at failed
  · obtain ⟨float, floatRead⟩ := read "FLOAT_TOKEN" (show _ ∈ (msg 1 (core 0)).names by decide)
    obtain ⟨string, stringRead⟩ := read "STRING_TOKEN" (show _ ∈ (msg 1 (core 0)).names by decide)
    simp [msg, TokenKind.all, TokenKind.constantName, floatRead, stringRead, bind, Except.bind, pure, Except.pure] at failed
  · cases failed

namespace Registry

/-- Some generator of the registry fails with the error on what it is given for the graph. -/
def Raises (r : Registry) (g : Graph) (e : CompileError) : Prop :=
  (∃ type i, r.types.get? type = some i ∧ i.Raises g r e) ∨ ∃ d, r.Holds d ∧ d.Raises r e

/-- A registry whose generators succeed on all that is made for the graph, whatever part of it is kept. The standard
    definitions do so anyway. -/
structure Total (r : Registry) (g : Graph) : Prop where
  types : ∀ full type i, r.types.get? type = some i → ∀ e, ¬i.Raises (g.trim full) r e
  definitions : ∀ d, r.Holds d → d ∉ r.standard → ∀ e, ¬d.Raises r e

theorem Total.not_raises {r : Registry} {g : Graph} (total : r.Total g) (full : List String) (e : CompileError) :
    ¬r.Raises (g.trim full) e := by
  rintro (⟨type, i, registered, raised⟩ | ⟨d, held, raised⟩)
  · exact total.types full type i registered e raised
  · by_cases standard : d ∈ r.standard
    · exact Library.Standard.not_raises standard raised
    · exact total.definitions d held standard e raised

end Registry
end DspPatch
