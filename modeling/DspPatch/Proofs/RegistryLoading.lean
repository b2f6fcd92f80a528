import DspPatch.Proofs.Registry

/-!
Which registry files load. Where a file has loaded, a definition is made of those it depends on, so that no definition
needs itself (`RegistryFile.Linked.loadable`). Conversely a definition that is met while it is being resolved depends on
itself (`RegistryFile.Resolvable.resolve_ok`). A file loads exactly if its names are not reserved, its references are
known, its definitions have no cycle and its templates parse, and then every name stands for one definition
(`Registry.read_ok_iff_loadable`).
-/
namespace DspPatch

/-- The text is a template, wherever it stands. -/
def Template.Parses (source : String) : Prop := ∃ t, ∀ origin, Template.parse origin source = .ok t

/-- Where a template stands has no influence on whether it parses. -/
theorem Template.parses_iff (origin source : String) : Parses source ↔ ∃ t, parse origin source = .ok t := by
  constructor
  · rintro ⟨t, parsed⟩
    exact ⟨t, parsed origin⟩
  · rintro ⟨t, parsed⟩
    unfold parse at parsed
    split at parsed
    next pieces scanned => exact ⟨⟨pieces⟩, fun other => by rw [parse, scanned]⟩
    next => cases parsed

namespace RegistryFile
variable {globals : Table Global} {path : List String} {s : Resolver}

/-- A definition of the file names another one of the file. -/
def DependsOn (globals : Table Global) (name dependency : String) : Prop :=
  ∃ g, globals.get? name = some g ∧ dependency ∈ g.dependencies ∧ dependency ∈ globals.keys

/-- What the definitions of a file have to satisfy. -/
structure Resolvable (globals : Table Global) : Prop where
  unreserved : ∀ name ∈ Library.Standard.names, name ∉ globals.keys
  known : ∀ name g, globals.get? name = some g →
    ∀ dependency ∈ g.dependencies, dependency ∈ Library.Standard.names ∨ dependency ∈ globals.keys
  acyclic : ∀ name, ¬Relation.TransGen (DependsOn globals) name name
  parses : ∀ name g, globals.get? name = some g → Template.Parses g.code

/-- A name resolves if it is known and if all names on the path depend on it. -/
theorem Resolvable.resolve_ok (sound : Resolvable globals) {name : String}
    (standard : ∀ name ∈ Library.Standard.names, name ∈ s.resolved.keys)
    (known : name ∈ Library.Standard.names ∨
      name ∈ globals.keys ∧ ∀ user ∈ path, Relation.TransGen (DependsOn globals) user name) :
    Yields (resolve globals path name s) (fun _ => True) (fun _ => False) := by
  generalize bound : Search.unseen globals.keys path = measure
  induction measure using Nat.strongRecOn generalizing path name s with
  | ind measure ih =>
    rw [resolve]
    split
    next => trivial
    next new =>
    have declared : name ∈ globals.keys ∧ ∀ user ∈ path, Relation.TransGen (DependsOn globals) user name :=
      known.resolve_left (fun isStandard => Table.not_mem_keys_of_get? new (standard name isStandard))
    split
    next onPath => exact sound.acyclic name (declared.2 name onPath)
    next fresh =>
    split
    next missing =>
      obtain ⟨g, found⟩ := Table.mem_keys_iff.mp declared.1
      cases missing.symm.trans found
    next g found =>
    split
    next failed =>
      obtain ⟨t, parsed⟩ := sound.parses name g found
      cases failed.symm.trans (parsed _)
    next code parsed =>
    have smaller := Search.unseen_append_lt (Table.mem_keys_of_get? found) fresh
    refine Yields.bind (inTurn_yields (Advances globals (path ++ [name])) (fun _ _ _ => True) (.refl globals _) .trans
      (fun _ _ => trivial) ?_) (fun _ _ => trivial)
    intro dependency needed t advance
    have next : dependency ∈ Library.Standard.names ∨
        dependency ∈ globals.keys ∧ ∀ user ∈ path ++ [name], Relation.TransGen (DependsOn globals) user dependency := by
      refine (sound.known name g found dependency needed).imp_right (fun inside => ⟨inside, fun user onPath => ?_⟩)
      have last : DependsOn globals name dependency := ⟨g, found, needed, inside⟩
      rcases List.mem_append.mp onPath with earlier | own
      · exact (declared.2 user earlier).tail last
      · exact List.mem_singleton.mp own ▸ .single last
    have kept : ∀ name ∈ Library.Standard.names, name ∈ t.resolved.keys :=
      fun name isStandard => advance.mem_keys (standard name isStandard)
    exact ((ih _ (bound ▸ smaller) kept next rfl).and (resolve_yields globals (path ++ [name]) dependency t)).mono
      (fun _ made => ⟨made.2.1, trivial⟩) (fun _ bad => bad.1)

theorem mem_keys_start (first : Nat) : ∀ name ∈ Library.Standard.names, name ∈ (Resolver.start first).resolved.keys := by
  intro name standard
  rw [← Library.Standard.map_fst_definitions first] at standard
  obtain ⟨⟨_, d⟩, member, rfl⟩ := List.mem_map.mp standard
  exact Table.mem_keys_of_get? (get?_start.mpr member)

theorem Resolvable.resolveGlobals_ok (sound : Resolvable globals) (first : Nat) :
    ∃ s, resolveGlobals globals first = .ok s := by
  have none : Library.Standard.names.find? globals.contains = none := by
    refine List.find?_eq_none.mpr (fun name standard declared => ?_)
    exact sound.unreserved name standard (Table.contains_iff.mp declared)
  have all : Yields (inTurn (resolve globals []) globals.keys (.start first)) (fun _ => True) (fun _ => False) := by
    refine (inTurn_yields (Advances globals []) (fun _ _ _ => True) (.refl globals _) .trans (fun _ _ => trivial) ?_).mono
      (fun _ _ => trivial) (fun _ bad => bad)
    intro name declared t advance
    have kept : ∀ name ∈ Library.Standard.names, name ∈ t.resolved.keys :=
      fun name isStandard => advance.mem_keys (mem_keys_start first name isStandard)
    exact ((sound.resolve_ok kept (.inr ⟨declared, List.forall_mem_nil _⟩)).and (resolve_yields globals [] name t)).mono
      (fun _ made => ⟨made.2.1, trivial⟩) (fun _ bad => bad.1)
  obtain ⟨⟨ds, s⟩, result, _⟩ := all.exists_ok
  exact ⟨s, by rw [resolveGlobals, none]; exact map_eq_ok_iff.mpr ⟨_, result, rfl⟩⟩

/-- Steps that leave the state as it is do so in turn. -/
theorem inTurn_fixed {ε α β σ : Type} {step : α → σ → Except ε (β × σ)} {items : List α} {s : σ}
    (each : ∀ item ∈ items, ∃ made, step item s = .ok (made, s)) : ∃ made, inTurn step items s = .ok (made, s) := by
  induction items with
  | nil => exact ⟨[], rfl⟩
  | cons item rest ih =>
    rw [List.forall_mem_cons] at each
    obtain ⟨made, first⟩ := each.1
    obtain ⟨others, later⟩ := ih each.2
    exact ⟨made :: others, bind_eq_ok_iff.mpr ⟨_, first, bind_eq_ok_iff.mpr ⟨_, later, rfl⟩⟩⟩

/-- The texts of a node type that have to be templates. -/
def NodeType.sources (t : NodeType) : List String :=
  t.state.map Member.value ++ t.inletDsp.values ++ t.receivers.values.map ReceiverCode.body ++ t.core.toList ++
    t.declarations.toList ++ t.loop.toList

theorem parse_return_ok_iff {α : Type} (origin source : String) (f : Template → α) :
    (∃ made, (do return f (← Template.parse origin source) : Except CompileError α) = .ok made) ↔
      Template.Parses source := by
  have always (t : Template) : (∃ made, (pure (f t) : Except CompileError α) = .ok made) ↔ True :=
    iff_true_intro ⟨f t, rfl⟩
  exact (exists_bind_ok_iff (Template.parses_iff origin source).symm always).trans (iff_of_eq (and_true _))

theorem parseAll_ok_iff {α : Type} (origin : String → String) (source : α → String) (t : Table α) :
    (∃ parsed, parseAll origin source t = .ok parsed) ↔ ∀ value ∈ t.values, Template.Parses (source value) := by
  unfold parseAll
  rw [exists_mapM_ok_iff, Table.values, List.forall_mem_map]
  exact forall₂_congr (fun entry _ => parse_return_ok_iff _ _ (fun t => (entry.1, entry.2, t)))

theorem parseOptional_ok_iff (origin : String) (source : Option String) :
    (∃ parsed, parseOptional origin source = .ok parsed) ↔ ∀ text ∈ source.toList, Template.Parses text := by
  cases source with
  | none => simp [parseOptional]
  | some text =>
    rw [Option.toList_some, List.forall_mem_singleton, Template.parses_iff origin]
    simp only [parseOptional, map_eq_ok_iff]
    constructor
    · rintro ⟨_, code, parsed, _⟩
      exact ⟨code, parsed⟩
    · rintro ⟨code, parsed⟩
      exact ⟨some code, code, parsed, rfl⟩

/-- The templates of a node type make code if all its texts are templates. -/
theorem exists_makes_iff (type : String) (t : NodeType) :
    (∃ i, t.Makes type i) ↔ ∀ source ∈ t.sources, Template.Parses source := by
  have state (origin : Member → String) : (∃ made, t.state.mapM (fun member => do
      return (member, ← Template.parse (origin member) member.value)) = (.ok made : Except CompileError _)) ↔
        ∀ source ∈ t.state.map Member.value, Template.Parses source := by
    rw [exists_mapM_ok_iff, List.forall_mem_map]
    exact forall₂_congr (fun member _ => parse_return_ok_iff _ _ (fun t => (member, t)))
  have parsed : (∃ made, t.bare.implementation ∅ type ⟨0, ∅⟩ = .ok made) ↔
      (∀ source ∈ t.state.map Member.value, Template.Parses source) ∧
      (∀ source ∈ t.inletDsp.values, Template.Parses source) ∧
      (∀ receiver ∈ t.receivers.values, Template.Parses receiver.body) ∧ True ∧
      (∀ source ∈ t.core.toList, Template.Parses source) ∧ (∀ source ∈ t.declarations.toList, Template.Parses source) ∧
      (∀ source ∈ t.loop.toList, Template.Parses source) ∧ True :=
    exists_bind_ok_iff (state _) (fun _ => exists_bind_ok_iff (parseAll_ok_iff _ _ _) (fun _ =>
      exists_bind_ok_iff (parseAll_ok_iff _ _ _) (fun _ => exists_bind_ok_iff (iff_true_intro ⟨_, rfl⟩) (fun _ =>
        exists_bind_ok_iff (parseOptional_ok_iff _ _) (fun _ => exists_bind_ok_iff (parseOptional_ok_iff _ _) (fun _ =>
          exists_bind_ok_iff (parseOptional_ok_iff _ _) (fun _ => iff_true_intro ⟨_, rfl⟩)))))))
  have made : (∃ i, t.Makes type i) ↔ ∃ made, t.bare.implementation ∅ type ⟨0, ∅⟩ = .ok made := by
    constructor
    · rintro ⟨i, makes⟩
      exact ⟨_, makes⟩
    · rintro ⟨⟨i, u⟩, made⟩
      exact ⟨i, (implementation_eq_ok_iff.mp made).1⟩
  rw [made, parsed]
  simp only [NodeType.sources, List.forall_mem_append, List.forall_mem_map, and_true, true_and]
  tauto

/-- The names by which definitions and node types refer to definitions. -/
def references (file : RegistryFile) : List String :=
  file.globals.values.flatMap Global.dependencies ++ file.nodes.values.flatMap NodeType.dependencies

/-- All texts that have to be templates. -/
def sources (file : RegistryFile) : List String :=
  file.globals.values.map Global.code ++ file.nodes.values.flatMap NodeType.sources

/-- What a file has to satisfy to be a registry. -/
structure Loadable (file : RegistryFile) : Prop where
  unreserved : ∀ name ∈ Library.Standard.names, name ∉ file.globals.keys
  known : ∀ name ∈ file.references, name ∈ Library.Standard.names ∨ name ∈ file.globals.keys
  acyclic : ∀ name, ¬Relation.TransGen (DependsOn file.globals) name name
  parses : ∀ source ∈ file.sources, Template.Parses source

variable {file : RegistryFile}

theorem forall_mem_references {p : String → Prop} : (∀ name ∈ file.references, p name) ↔
    (∀ name g, file.globals.get? name = some g → ∀ dependency ∈ g.dependencies, p dependency) ∧
      ∀ type t, file.nodes.get? type = some t → ∀ dependency ∈ t.dependencies, p dependency := by
  rw [references, List.forall_mem_append, List.forall_mem_flatMap, List.forall_mem_flatMap, Table.forall_mem_values_iff,
    Table.forall_mem_values_iff]

theorem forall_mem_sources {p : String → Prop} : (∀ source ∈ file.sources, p source) ↔
    (∀ name g, file.globals.get? name = some g → p g.code) ∧
      ∀ type t, file.nodes.get? type = some t → ∀ source ∈ t.sources, p source := by
  rw [sources, List.forall_mem_append, List.forall_mem_map, List.forall_mem_flatMap, Table.forall_mem_values_iff,
    Table.forall_mem_values_iff]

theorem loadable_iff : file.Loadable ↔ Resolvable file.globals ∧ ∀ type t, file.nodes.get? type = some t →
    (∀ source ∈ t.sources, Template.Parses source) ∧
      ∀ name ∈ t.dependencies, name ∈ Library.Standard.names ∨ name ∈ file.globals.keys := by
  constructor
  · rintro ⟨unreserved, known, acyclic, parses⟩
    obtain ⟨knownGlobals, knownNodes⟩ := forall_mem_references.mp known
    obtain ⟨parsesGlobals, parsesNodes⟩ := forall_mem_sources.mp parses
    exact ⟨⟨unreserved, knownGlobals, acyclic, parsesGlobals⟩, fun type t found =>
      ⟨parsesNodes type t found, knownNodes type t found⟩⟩
  · rintro ⟨sound, nodes⟩
    exact ⟨sound.unreserved, forall_mem_references.mpr ⟨sound.known, fun type t found => (nodes type t found).2⟩,
      sound.acyclic, forall_mem_sources.mpr ⟨sound.parses, fun type t found => (nodes type t found).1⟩⟩

theorem Loadable.registry_ok (loadable : file.Loadable) (first : Nat) : ∃ r, file.registry first = .ok r := by
  obtain ⟨sound, nodes⟩ := loadable_iff.mp loadable
  obtain ⟨s, resolved⟩ := sound.resolveGlobals_ok first
  obtain ⟨unreserved, advance, complete⟩ := (resolveGlobals_yields file.globals first).of_eq_ok resolved
  have names := advance.names_perm unreserved complete
  have each : ∀ entry ∈ file.nodes.entries, ∃ named, implement file.globals entry s = .ok (named, s) := by
    rintro ⟨type, t⟩ member
    obtain ⟨parses, known⟩ := nodes type t (Table.get?_eq_some_iff.mpr member)
    obtain ⟨i, makes⟩ := (exists_makes_iff type t).mpr parses
    have found : ∀ name ∈ t.dependencies, ∃ d, resolve file.globals [] name s = .ok (d, s) := by
      intro name needed
      obtain ⟨d, isKnown⟩ := Table.mem_keys_iff.mp (names.mem_iff.mpr (List.mem_append.mpr (known name needed)))
      exact ⟨d, resolve_known isKnown⟩
    obtain ⟨ds, resolves⟩ := inTurn_fixed found
    have made : t.implementation file.globals type s = .ok ({ i with dependencies := ds }, s) :=
      implementation_eq_ok_iff.mpr ⟨makes, resolves⟩
    exact ⟨_, bind_eq_ok_iff.mpr ⟨_, made, rfl⟩⟩
  obtain ⟨types, made⟩ := inTurn_fixed each
  exact ⟨_, bind_eq_ok_iff.mpr ⟨s, resolved, bind_eq_ok_iff.mpr ⟨_, made, rfl⟩⟩⟩

namespace Linked
variable {known : Table Definition} {r : Registry} (linked : file.Linked known r)
include linked

/-- Where the file has a dependency, the definitions that are known have one. -/
theorem needs_of_dependsOn {name dependency : String} {d : Definition} (isKnown : known.get? name = some d)
    (depends : DependsOn file.globals name dependency) : ∃ e, known.get? dependency = some e ∧ d.Needs e := by
  obtain ⟨g, found, needed, _⟩ := depends
  obtain ⟨d', isKnown', makes⟩ := linked.globals found
  cases isKnown.symm.trans isKnown'
  obtain ⟨e, member, isKnown⟩ := exists_right_of_forall₂ makes.dependencies needed
  exact ⟨e, isKnown, member⟩

theorem chain_of_dependsOn {name dependency : String} {d : Definition} (isKnown : known.get? name = some d)
    (chain : Relation.TransGen (DependsOn file.globals) name dependency) :
    ∃ e, known.get? dependency = some e ∧ Relation.TransGen Definition.Needs d e := by
  induction chain with
  | single depends =>
    obtain ⟨e, isKnown, needs⟩ := linked.needs_of_dependsOn isKnown depends
    exact ⟨e, isKnown, .single needs⟩
  | tail _ depends ih =>
    obtain ⟨e, isKnown, chain⟩ := ih
    obtain ⟨e', isKnown', needs⟩ := linked.needs_of_dependsOn isKnown depends
    exact ⟨e', isKnown', chain.tail needs⟩

/-- A file that has loaded satisfies the conditions. -/
theorem loadable : file.Loadable := by
  have refers {names : List String} {ds : List Definition} (refers : Refers known names ds) :
      ∀ name ∈ names, name ∈ Library.Standard.names ∨ name ∈ file.globals.keys := by
    intro name member
    obtain ⟨d, _, isKnown⟩ := exists_right_of_forall₂ refers member
    exact linked.mem_keys_iff.mp (Table.mem_keys_of_get? isKnown)
  refine loadable_iff.mpr ⟨⟨fun name standard declared => ?_, fun name g found => ?_, fun name cycle => ?_,
    fun name g found => ?_⟩, fun type t found => ?_⟩
  · have apart := List.nodup_append.mp (linked.names.nodup_iff.mp known.nodup_keys)
    exact apart.2.2 name standard name declared rfl
  · obtain ⟨d, _, makes⟩ := linked.globals found
    exact refers makes.dependencies
  · obtain ⟨_, ⟨g, found, _⟩, _⟩ := Relation.TransGen.head'_iff.mp cycle
    obtain ⟨d, isKnown, _⟩ := linked.globals found
    obtain ⟨e, isKnown', chain⟩ := linked.chain_of_dependsOn isKnown cycle
    cases isKnown.symm.trans isKnown'
    exact Definition.not_needs_self chain
  · obtain ⟨d, _, ⟨code, parsed, _⟩, _⟩ := linked.globals found
    exact (Template.parses_iff _ _).mpr ⟨code, parsed⟩
  · obtain ⟨i, _, makes, dependencies⟩ := linked.nodes found
    exact ⟨(exists_makes_iff type t).mp ⟨i, makes⟩, refers dependencies⟩

end Linked

/-- The registry has the definition where the file has the name: as a dependency of a node type, or of a definition that is
    referred to itself. -/
inductive RefersTo (file : RegistryFile) (r : Registry) : String → Definition → Prop where
  | fromNode {type name : String} {t : NodeType} {i : Implementation} {d : Definition}
      (found : file.nodes.get? type = some t) (stored : r.types.get? type = some i)
      (place : (name, d) ∈ t.dependencies.zip i.dependencies) : RefersTo file r name d
  | fromGlobal {user name : String} {g : Global} {u d : Definition} (used : RefersTo file r user u)
      (found : file.globals.get? user = some g) (place : (name, d) ∈ g.dependencies.zip u.dependencies) : RefersTo file r name d

/-- All who refer to a name have the definition that is known for it. -/
theorem Linked.known_of_refersTo {known : Table Definition} {r : Registry} (linked : file.Linked known r) {name : String}
    {d : Definition} (refers : file.RefersTo r name d) : known.get? name = some d := by
  induction refers with
  | fromNode found stored place =>
    obtain ⟨i, stored', _, dependencies⟩ := linked.nodes found
    cases stored.symm.trans stored'
    exact List.forall₂_zip dependencies place
  | fromGlobal _ found place ih =>
    obtain ⟨d', isKnown, makes⟩ := linked.globals found
    cases isKnown.symm.trans ih
    exact List.forall₂_zip makes.dependencies place

end RegistryFile

/-- A text that spells a registry file loads exactly if no definition has a reserved name, every reference is to a standard
    definition or to one of the file, no definition of the file depends on itself, and every template parses. A registry
    that was loaded is linked: all who refer to a name, node types and definitions alike, have one definition with one
    identity, and a reserved name stands for the standard definition of the registry. -/
theorem Registry.read_ok_iff_loadable {text : String} {file : RegistryFile} (reads : RegistryFile.decode.run text = some file)
    (first : Nat) :
    ((∃ r, Registry.read first text = .ok r) ↔ file.Loadable) ∧
      ∀ r, Registry.read first text = .ok r → r.first = first ∧ (∃ known, file.Linked known r) ∧
        (∀ name d e, file.RefersTo r name d → file.RefersTo r name e → d = e) ∧
        ∀ name d, file.RefersTo r name d → name ∈ Library.Standard.names → (name, d) ∈ Library.Standard.definitions first := by
  have same : Registry.read first text = file.registry first := by rw [Registry.read, reads]
  rw [same]
  refine ⟨⟨?_, fun loadable => loadable.registry_ok first⟩, fun r made => ?_⟩
  · rintro ⟨r, made⟩
    obtain ⟨_, known, linked⟩ := (file.registry_linked first).of_eq_ok made
    exact linked.loadable
  · obtain ⟨rfl, known, linked⟩ := (file.registry_linked first).of_eq_ok made
    refine ⟨rfl, ⟨known, linked⟩, fun name d e refers refers' => ?_, fun name d refers standard => ?_⟩
    · cases (linked.known_of_refersTo refers).symm.trans (linked.known_of_refersTo refers')
      rfl
    · rw [← Library.Standard.map_fst_definitions r.first] at standard
      obtain ⟨⟨_, e⟩, member, rfl⟩ := List.mem_map.mp standard
      cases (linked.standard _ member).symm.trans (linked.known_of_refersTo refers)
      exact member

/-- A definition stands before the one that it depends on, and two node types share definitions. -/
def sweepText : String :=
  "\x7b\"globals\":\x7b\"ramp\":\x7b\"namespace\":\"ramp\",\"dependencies\":[\"clip\",\"msg\"]\x7d,\"clip\":\x7b\"namespace\":\"clip\"\x7d\x7d,"
    ++ "\"nodes\":\x7b\"sweep~\":\x7b\"dependencies\":[\"core\",\"ramp\"]\x7d,\"fold~\":\x7b\"dependencies\":[\"clip\",\"ramp\"]\x7d\x7d\x7d"

/-- The standard definitions have the identities from 7 to 9. The definition that stands first in the file comes next, and
    the one that it depends on is last, wherever they are referred to. -/
theorem Registry.read_ok_iff_loadable_sweep : ∃ file r, RegistryFile.decode.run sweepText = some file ∧
    Registry.read 7 sweepText = .ok r ∧ r.identities "sweep~" = some [(7, []), (10, [11, 8])] ∧
    r.identities "fold~" = some [(11, []), (10, [11, 8])] ∧ file.Loadable ∧ ∃ known, file.Linked known r := by
  have shown : (Registry.read 7 sweepText).toOption.any (fun r =>
      r.identities "sweep~" == some [(7, []), (10, [11, 8])] && r.identities "fold~" == some [(11, []), (10, [11, 8])]) = true := by
    decide +kernel
  obtain ⟨r, loaded, both⟩ := (Option.any_eq_true _ _).mp shown
  have made : Registry.read 7 sweepText = .ok r := toOption_eq_some_iff.mp loaded
  obtain ⟨sweep, fold⟩ := Bool.and_eq_true_iff.mp both
  obtain ⟨file, decoded, _⟩ := Registry.read_eq_ok_iff.mp made
  obtain ⟨loads, links⟩ := Registry.read_ok_iff_loadable decoded 7
  exact ⟨file, r, decoded, made, eq_of_beq sweep, eq_of_beq fold, loads.mp ⟨r, made⟩, (links r made).2.1⟩

end DspPatch
