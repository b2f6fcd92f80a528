import DspPatch.Draft.Dependencies
import DspPatch.Proofs.Contexts
import DspPatch.Proofs.Draft.Portlets

/-!
What collecting the dependencies achieves. Afterwards every node has a registered type with a tag, every name of the
definitions that are needed has a symbol, and the nodes are as they were. Apart from generators only names and missing
implementations can make it fail.
-/
namespace DspPatch

/-- An implementation is missing. -/
def CompileError.IsImplementation (e : CompileError) : Prop := ∃ type place fault, e = .implementation type place fault

/-- What can go wrong while code is made: a name, a missing implementation, or a generator. -/
def CodeFault (g : Graph) (r : Registry) (e : CompileError) : Prop := e.IsName ∨ e.IsImplementation ∨ r.Raises g e

theorem Registry.implementation_eq_ok_iff {r : Registry} {n : Node} {i : Implementation} :
    r.implementation n = .ok i ↔ r.types.get? n.type = some i := by
  unfold Registry.implementation
  cases r.types.get? n.type <;> simp

namespace Draft
open Build
variable {input : BuildInput} {w : Workspace}

/-- The implementations of the types of the nodes `ids`. -/
structure ImplementationsOf (input : BuildInput) (ids : List String) (types : Table Implementation) : Prop where
  registered : ∀ type i, types.get? type = some i → input.registry.types.get? type = some i
  covered : ∀ id ∈ ids, ∀ n, input.graph.get? id = some n → n.type ∈ types.keys

/-- What the types depend on is held by the registry. -/
theorem ImplementationsOf.holds {ids : List String} {types : Table Implementation} (known : ImplementationsOf input ids types)
    {d : Definition} (member : d ∈ types.values.flatMap Implementation.dependencies) : input.registry.Holds d := by
  obtain ⟨i, used, needed⟩ := List.mem_flatMap.mp member
  obtain ⟨type, stored⟩ := Table.mem_values_iff.mp used
  exact .inr ⟨type, i, known.registered type i stored, d, needed, .refl⟩

theorem implementations_yields (input : BuildInput) (ids : List String) :
    Yields (implementations input ids) (ImplementationsOf input ids)
      (fun e => (∀ id ∈ ids, ∃ n, input.graph.get? id = some n) → e.IsImplementation) := by
  refine Yields.foldlM (ImplementationsOf input) ⟨fun _ _ found => by simp at found, List.forall_mem_nil _⟩ ?_
  intro done id rest types split known
  cases found : input.graph.get? id with
  | none =>
    rw [Graph.node, found]
    intro present
    obtain ⟨n, isFound⟩ := present id (by simp [split])
    cases found.symm.trans isFound
  | some n =>
  rw [Graph.node_eq_ok_iff.mpr found]
  show Yields (input.registry.implementation n >>= fun i => pure (types.insertNew n.type i)) _ _
  cases type : input.registry.types.get? n.type with
  | none =>
    rw [Registry.implementation, type]
    exact fun _ => ⟨n.type, _, _, rfl⟩
  | some i =>
    rw [Registry.implementation_eq_ok_iff.mpr type]
    refine ⟨fun other j stored => ?_, fun other member m mFound => ?_⟩
    · rw [Table.insertNew] at stored
      split at stored
      next => exact known.registered other j stored
      next =>
        rw [Table.get?_insert] at stored
        split at stored
        next same => rw [same, type]; exact stored
        next => exact known.registered other j stored
    · have kept : ∀ key, key = n.type ∨ key ∈ types.keys → key ∈ (types.insertNew n.type i).keys := by
        intro key
        rw [Table.insertNew]
        split
        next old => exact fun either => either.elim (fun same => same ▸ Table.contains_iff.mp old) (fun member => member)
        next => exact Table.mem_keys_insert.mpr
      rcases List.mem_append.mp member with earlier | last
      · exact kept _ (.inr (known.covered other earlier m mFound))
      · rw [List.mem_singleton.mp last] at mFound
        cases found.symm.trans mFound
        exact kept _ (.inl rfl)

theorem nameType_ends (type : String) (i : Implementation) :
    Ends (nameType type i) w
      (fun _ after => after.draft = w.draft ∧ w.symbols.Grows after.symbols ∧ after.symbols.KnowsType type i.locals)
      CompileError.IsName := by
  have tagged := w.symbols.attachTypeTag_assigns type
  refine Ends.name_bind ?_
  refine (nameEach_ends (fun name => .global (w.symbols.attachTypeTag type).1 name) ?_).mono ?_ (fun _ bad => bad)
  · exact fun name _ s _ => s.attachGlobal_yields _ name
  · rintro _ after ⟨same, grows, locals⟩
    exact ⟨same, tagged.grows.trans grows, _, grows.kept tagged.at?_eq, locals⟩

theorem collectShared_ends (definitions : List Definition) :
    Ends (collectShared input definitions) w
      (fun shared after => after.draft = w.draft ∧ w.symbols.Grows after.symbols ∧ shared.exports.Nodup ∧
        ∀ d ∈ Definition.flatten (input.registry.standard ++ definitions), after.symbols.Knows d)
      (fun e => (∀ d ∈ definitions, input.registry.Holds d) → CodeFault input.graph input.registry e) := by
  refine Ends.symbols_bind ?_
  obtain ⟨grows, outcome⟩ := SharedCode.collect_spec (input.registry.standard ++ definitions) input.settings w.symbols
  have exports := SharedCode.collect_exports (input.registry.standard ++ definitions) input.settings w.symbols
  show Ends (liftM (SharedCode.collect (input.registry.standard ++ definitions) input.settings w.symbols).1)
    { w with symbols := (SharedCode.collect (input.registry.standard ++ definitions) input.settings w.symbols).2 } _ _
  refine Ends.lift ((outcome.and exports).mono (fun _ made => ⟨rfl, grows, made.2, made.1⟩) (fun e bad held => ?_))
  rcases bad.1 with isName | ⟨d, listed, c, tag, known, failed⟩
  · exact .inl isName
  · have reached := Definition.reaches_of_mem_flatten listed
    refine .inr (.inr (.inr ⟨d, Registry.holds_of_reaches held reached, c, ⟨tag, known d listed, ?_⟩, failed⟩))
    exact Symbols.knowsAll_of_flatten held (fun _ member => List.mem_singleton.mp member ▸ reached) known

/-- What is known of the shared code and of the types of a draft. -/
structure Collected (input : BuildInput) (full : List String) (w : Workspace) : Prop where
  served : ∀ id ∈ full, ∀ n, input.graph.get? id = some n → ∃ i, w.symbols.ServesType input.registry n.type i
  globals : ∀ d ∈ input.registry.standard, w.symbols.Knows d
  classless : ∀ type t, w.draft.types.get? type = some t → t.stateClass = none

section Standard
open Library.Standard
variable {full : List String} {own : String} (collected : Collected input full w)
include collected

theorem Collected.msg (listed : own ∈ (msg 1 (core 0)).names) : w.symbols.at? (.global "msg" own) ≠ none :=
  collected.globals _ (Registry.mem_standard.mpr (.inr (.inl rfl))) own listed

theorem Collected.commons (listed : own ∈ (commons 2 (core 0)).names) : w.symbols.at? (.global "commons" own) ≠ none :=
  collected.globals _ (Registry.mem_standard.mpr (.inr (.inr rfl))) own listed

end Standard

theorem makeCore_ends {type : String} {i : Implementation} (registered : input.registry.types.get? type = some i) :
    Ends (makeCore input type i) w
      (fun _ after => after.symbols = w.symbols ∧ after.draft.nodes = w.draft.nodes ∧
        after.draft.partition = w.draft.partition ∧ ∃ core, after.draft.types = w.draft.types.insert type ⟨none, core⟩)
      (fun e => w.symbols.ServesType input.registry type i → CodeFault input.graph input.registry e) := by
  refine Ends.symbols_bind (Ends.lift_bind ?_)
  cases result : i.core ⟨type, w.symbols, input.settings⟩ with
  | ok core => exact ⟨rfl, rfl, rfl, core, rfl⟩
  | error e => exact fun served => .inr (.inr (.inl ⟨type, i, registered, .core served result⟩))

/-- Collecting the dependencies of a resolved draft. -/
theorem collectDependencies_ends {full : List String} (prepared : Prepared input full .portletsResolved w)
    (fresh : w.draft.types = ∅) :
    Ends (collectDependencies input) w
      (fun _ after => Prepared input full .dependenciesCollected after ∧ w.symbols.Grows after.symbols ∧
        Collected input full after)
      (CodeFault input.graph input.registry) := by
  refine Ends.pass prepared.staged (Ends.nodeIds_bind (Ends.lift_bind ?_))
  refine (implementations_yields input _).mono (fun types known => ?_)
    (fun _ bad => .inr (.inl (bad (fun id member => prepared.present id ((prepared.keys id).mp member)))))
  refine Ends.bind (Ends.forM (fun done now => now.draft = w.draft ∧ w.symbols.Grows now.symbols ∧
    ∀ entry ∈ done, now.symbols.KnowsType entry.1 entry.2.locals) ⟨rfl, .refl _, List.forall_mem_nil _⟩ ?_) ?_
  · rintro done ⟨type, i⟩ rest now split ⟨same, grows, named⟩
    refine (nameType_ends type i).mono ?_ (fun _ bad => .inl bad)
    rintro _ after ⟨sameNext, growsNext, own⟩
    refine ⟨sameNext.trans same, grows.trans growsNext, fun entry member => ?_⟩
    rcases List.mem_append.mp member with earlier | last
    · exact (named entry earlier).mono growsNext
    · rw [List.mem_singleton.mp last]
      exact own
  rintro _ w₁ ⟨same₁, grows₁, named⟩
  refine Ends.bind ((collectShared_ends _).mono (fun _ _ post => post) (fun e bad => bad (fun _ => known.holds))) ?_
  rintro shared w₂ ⟨same₂, grows₂, _, globals⟩
  have served : ∀ type i, types.get? type = some i → w₂.symbols.ServesType input.registry type i := by
    intro type i stored
    refine ⟨known.registered type i stored, (named (type, i) (Table.get?_eq_some_iff.mp stored)).mono grows₂,
      Symbols.knowsAll_of_flatten (fun _ => known.holds) (fun d needed => ⟨d, List.mem_append_right _ ?_, .refl⟩) globals⟩
    exact List.mem_flatMap.mpr ⟨i, Table.mem_values_iff.mpr ⟨type, stored⟩, needed⟩
  refine Ends.modifyDraft_bind ?_
  refine (Ends.forM (fun _ now => now.symbols = w₂.symbols ∧ now.draft.nodes = w.draft.nodes ∧
    now.draft.partition = w.draft.partition ∧ ∀ type t, now.draft.types.get? type = some t → t.stateClass = none)
    ?_ ?_).mono ?_ (fun _ bad => bad)
  · rw [same₂, same₁]
    exact ⟨rfl, rfl, rfl, fun type t found => by simp [fresh] at found⟩
  · rintro done ⟨type, i⟩ rest now split ⟨same, nodes, partition, classless⟩
    have stored : types.get? type = some i := Table.get?_eq_some_iff.mpr (by simp [split])
    refine (makeCore_ends (known.registered type i stored)).mono ?_ (fun _ bad => bad (same ▸ served type i stored))
    rintro _ after ⟨sameNext, nodesNext, partitionNext, core, typesNext⟩
    refine ⟨sameNext.trans same, nodesNext.trans nodes, partitionNext.trans partition, fun other t found => ?_⟩
    rw [typesNext, Table.get?_insert] at found
    split at found
    next =>
      cases found
      rfl
    next => exact classless other t found
  · rintro _ w₃ ⟨same₃, nodes, partition, classless⟩
    have grows : w.symbols.Grows w₃.symbols := same₃ ▸ grows₁.trans grows₂
    refine ⟨prepared.next nodes partition grows, grows, fun id member n found => ?_, fun d standard => ?_, classless⟩
    · obtain ⟨i, stored⟩ := Table.mem_keys_iff.mp (known.covered id ((prepared.keys id).mpr member) n found)
      exact ⟨i, same₃ ▸ served n.type i stored⟩
    · exact same₃ ▸ globals d ((input.registry.standard_isPrefix_flatten _).subset standard)

/-- What the code of the nodes of a draft may read is there, apart from the symbols to send with. -/
def Served (input : BuildInput) (w : Workspace) : Prop :=
  ∀ id m n, w.draft.nodes.get? id = some m → input.graph.get? id = some n →
    n.id = id ∧ ∃ i, (⟨n, w.symbols, input.settings, m.signalIns⟩ : NodeContext).Serves input.graph input.registry i

/-- The symbols to send with are there for the nodes of a draft. -/
def Voiced (input : BuildInput) (w : Workspace) : Prop :=
  ∀ id ∈ w.draft.nodes.keys, ∀ n, input.graph.get? id = some n →
    ∀ outlet ∈ n.outletsOf .message, w.symbols.at? (.portlet .snds id outlet.id) ≠ none

theorem Voiced.mono {after : Workspace} (voiced : Voiced input w) (grows : w.symbols.Grows after.symbols)
    (keys : after.draft.nodes.keys = w.draft.nodes.keys) : Voiced input after :=
  fun id member n found outlet declared => grows.present (voiced id (keys ▸ member) n found outlet declared)

/-- The same inlets of the same nodes have expressions. -/
structure KeepsInlets (before after : Draft) : Prop where
  keys : after.nodes.keys = before.nodes.keys
  nodes : ∀ id m, before.nodes.get? id = some m → ∃ m', after.nodes.get? id = some m' ∧
    m'.signalIns.keys = m.signalIns.keys

theorem KeepsInlets.refl (d : Draft) : KeepsInlets d d := ⟨rfl, fun _ m stored => ⟨m, stored, rfl⟩⟩

theorem KeepsInlets.trans {a b c : Draft} (first : KeepsInlets a b) (second : KeepsInlets b c) : KeepsInlets a c := by
  refine ⟨second.keys.trans first.keys, fun id m stored => ?_⟩
  obtain ⟨m', stored', keys⟩ := first.nodes id m stored
  obtain ⟨m'', stored'', keys'⟩ := second.nodes id m' stored'
  exact ⟨m'', stored'', keys'.trans keys⟩

theorem NodesChanged.keepsInlets {ids : List String} {rel : String → NodeDraft → NodeDraft → Prop} {before after : Draft}
    (changed : NodesChanged ids rel before after)
    (keeps : ∀ id ∈ ids, ∀ m m', rel id m m' → m'.signalIns.keys = m.signalIns.keys) : KeepsInlets before after := by
  refine ⟨changed.keys, fun id m stored => ?_⟩
  by_cases member : id ∈ ids
  · obtain ⟨m', stored', related⟩ := changed.changed id member m stored
    exact ⟨m', stored', keeps id member m m' related⟩
  · exact ⟨m, (changed.same id member).trans stored, rfl⟩

theorem Served.mono {after : Workspace} (served : Served input w) (grows : w.symbols.Grows after.symbols)
    (keeps : KeepsInlets w.draft after.draft) : Served input after := by
  intro id m' n stored' found
  obtain ⟨m, stored⟩ := Table.mem_keys_iff.mp (keeps.keys ▸ Table.mem_keys_of_get? stored')
  obtain ⟨_, same, keys⟩ := keeps.nodes id m stored
  cases stored'.symm.trans same
  obtain ⟨keyed, i, serves⟩ := served id m n stored found
  exact ⟨keyed, i, serves.mono grows keys⟩

/-- After the dependencies are collected, all that code may read is there. -/
theorem Collected.nodes {full : List String} {stage : Stage} (collected : Collected input full w)
    (prepared : Prepared input full stage w) (keyed : ∀ {id n}, input.graph.get? id = some n → n.id = id)
    (covers : Covers w.symbols input.graph) : Served input w := by
  intro id m n stored found
  obtain ⟨_, found', named, ready⟩ := prepared.nodes id m stored
  cases found.symm.trans found'
  obtain ⟨i, served⟩ := collected.served id ((prepared.keys id).mp (Table.mem_keys_of_get? stored)) n found
  obtain rfl : n.id = id := keyed found
  refine ⟨rfl, i, found, served, covers n.id n found, fun inlet member => ?_, named.outs, named.rcvs⟩
  obtain ⟨expression, given, _⟩ := ready.expressions inlet member
  exact Option.ne_none_iff_exists'.mpr ⟨expression, given⟩

end Draft
end DspPatch
