import DspPatch.Proofs.Library
import DspPatch.Proofs.Outcome
import DspPatch.Registry.Load
import Mathlib.Data.List.Perm.Basic

/-!
The registries that a compiler gets. A registry that was loaded is linked: for every name of its file and every standard
name there is one definition, with an identity of its own, and this is the definition that all who refer to the name have
(`RegistryFile.registry_linked`).
-/
namespace DspPatch
namespace RegistryFile
variable {globals : Table Global} {path : List String} {s t u : Resolver}

/-- What a step says of its result and what all steps keep, the steps in turn say of all results. -/
theorem inTurn_yields {ε α β σ : Type} {step : α → σ → Except ε (β × σ)} {items : List α} {s : σ} {fault : ε → Prop}
    (grows : σ → σ → Prop) (rel : α → β → σ → Prop) (refl : ∀ s, grows s s)
    (trans : ∀ {s t u}, grows s t → grows t u → grows s u) (keeps : ∀ {a b s t}, grows s t → rel a b s → rel a b t)
    (each : ∀ a ∈ items, ∀ t, grows s t → Yields (step a t) (fun made => grows t made.2 ∧ rel a made.1 made.2) fault) :
    Yields (inTurn step items s) (fun made => grows s made.2 ∧ List.Forall₂ (fun a b => rel a b made.2) items made.1)
      fault := by
  induction items generalizing s with
  | nil => exact ⟨refl s, .nil⟩
  | cons item rest ih =>
    rw [List.forall_mem_cons] at each
    refine Yields.bind (each.1 s (refl s)) ?_
    rintro ⟨made, t⟩ ⟨first, holds⟩
    refine Yields.bind (ih (fun a member u later => each.2 a member u (trans first later))) ?_
    rintro ⟨others, u⟩ ⟨later, related⟩
    exact ⟨trans first later, .cons (keeps later holds) related⟩

/-- The definitions are what is known under the names. -/
def Refers (known : Table Definition) (names : List String) (ds : List Definition) : Prop :=
  List.Forall₂ (fun name d => known.get? name = some d) names ds

/-- The definition is made of what the file has under the name, and depends on what is known under the names there. -/
structure Global.Makes (g : Global) (name : String) (known : Table Definition) (d : Definition) : Prop where
  code : ∃ code, Template.parse (globalOrigin name) g.code = .ok code ∧ d = g.definition d.id code d.dependencies
  dependencies : Refers known g.dependencies d.dependencies

/-- What was resolved stays resolved, and nothing on the path was resolved meanwhile. What is new was made of the file, and
    got the identities from the counter. -/
structure Advances (globals : Table Global) (path : List String) (s t : Resolver) : Prop where
  kept : ∀ {name d}, s.resolved.get? name = some d → t.resolved.get? name = some d
  outside : ∀ name ∈ path, t.resolved.get? name = s.resolved.get? name
  made : ∀ {name d}, t.resolved.get? name = some d → s.resolved.get? name = some d ∨
    ∃ g, globals.get? name = some g ∧ g.Makes name t.resolved d
  drawn : ∃ count, t.next = s.next + count ∧ (t.resolved.values.map Definition.id).Perm
    (s.resolved.values.map Definition.id ++ List.range' s.next count)

namespace Advances

theorem refers (advance : Advances globals path s t) {names : List String} {ds : List Definition}
    (refers : Refers s.resolved names ds) : Refers t.resolved names ds :=
  refers.imp (fun _ _ => advance.kept)

theorem mem_keys (advance : Advances globals path s t) {name : String} (known : name ∈ s.resolved.keys) :
    name ∈ t.resolved.keys := by
  obtain ⟨d, found⟩ := Table.mem_keys_iff.mp known
  exact Table.mem_keys_of_get? (advance.kept found)

theorem refl (globals : Table Global) (path : List String) (s : Resolver) : Advances globals path s s :=
  ⟨fun known => known, fun _ _ => rfl, .inl, 0, rfl, by simp⟩

theorem trans (first : Advances globals path s t) (second : Advances globals path t u) : Advances globals path s u := by
  refine ⟨fun known => second.kept (first.kept known),
    fun name onPath => (second.outside name onPath).trans (first.outside name onPath), fun known => ?_, ?_⟩
  · rcases second.made known with earlier | new
    · refine (first.made earlier).imp_right ?_
      rintro ⟨g, found, code, dependencies⟩
      exact ⟨g, found, code, second.refers dependencies⟩
    · exact .inr new
  · obtain ⟨count, next, perm⟩ := first.drawn
    obtain ⟨more, nextMore, permMore⟩ := second.drawn
    refine ⟨count + more, by rw [nextMore, next, Nat.add_assoc], permMore.trans ?_⟩
    rw [← List.range'_append_1, ← List.append_assoc, ← next]
    exact perm.append_right _

/-- A definition is resolved after those it depends on, with its own name on their path and an identity before theirs. -/
theorem keep {name : String} {g : Global} {code : Template} {ds : List Definition}
    (dependencies : Advances globals (path ++ [name]) s.draw t) (new : s.resolved.get? name = none) (fresh : name ∉ path)
    (found : globals.get? name = some g) (parsed : Template.parse (globalOrigin name) g.code = .ok code)
    (refers : Refers t.resolved g.dependencies ds) :
    Advances globals path s (t.keep name (g.definition s.next code ds)) := by
  have unresolved : t.resolved.get? name = none := (dependencies.outside name (by simp)).trans new
  have kept : ∀ {other e}, t.resolved.get? other = some e →
      (t.keep name (g.definition s.next code ds)).resolved.get? other = some e := by
    intro other e known
    refine (Table.get?_insert_of_ne _ _ ?_).trans known
    rintro rfl
    cases unresolved.symm.trans known
  refine ⟨fun known => kept (dependencies.kept known), fun other onPath => ?_, fun {other e} known => ?_, ?_⟩
  · rw [← show s.draw.resolved = s.resolved from rfl, ← dependencies.outside other (List.mem_append_left _ onPath)]
    exact Table.get?_insert_of_ne _ _ (fun same => fresh (same ▸ onPath))
  · by_cases same : other = name
    · subst same
      cases (Table.get?_insert_self _ _ _).symm.trans known
      exact .inr ⟨g, found, ⟨code, parsed, rfl⟩, refers.imp (fun _ _ => kept)⟩
    · refine (dependencies.made ((Table.get?_insert_of_ne _ _ same).symm.trans known)).imp_right ?_
      rintro ⟨g', found', code', dependencies'⟩
      exact ⟨g', found', code', dependencies'.imp (fun _ _ => kept)⟩
  · obtain ⟨count, next, perm⟩ := dependencies.drawn
    have counted : t.next = s.next + (count + 1) := by
      have drawn : s.draw.next = s.next + 1 := rfl
      omega
    refine ⟨count + 1, counted, ?_⟩
    have values : (t.keep name (g.definition s.next code ds)).resolved.values.map Definition.id =
        t.resolved.values.map Definition.id ++ [s.next] := by
      have absent : name ∉ t.resolved.keys := Table.not_mem_keys_of_get? unresolved
      simp [Resolver.keep, Table.values, Table.entries_insert_of_not_mem _ absent, Global.definition]
    rw [values, List.range'_succ]
    exact (perm.append_right _).trans (by
      rw [List.append_assoc]
      exact (List.perm_append_singleton s.next _).append_left _)

end Advances

/-- A name that is resolved is found again. -/
theorem resolve_known {name : String} {d : Definition} (known : s.resolved.get? name = some d) :
    resolve globals path name s = .ok (d, s) := by
  rw [resolve, known]

/-- Resolving a name makes what is missing. -/
theorem resolve_yields (globals : Table Global) (path : List String) (name : String) (s : Resolver) :
    Yields (resolve globals path name s)
      (fun made => Advances globals path s made.2 ∧ made.2.resolved.get? name = some made.1) (fun _ => True) := by
  generalize bound : Search.unseen globals.keys path = measure
  induction measure using Nat.strongRecOn generalizing path name s with
  | ind measure ih =>
    rw [resolve]
    split
    next d known => exact ⟨.refl globals path s, known⟩
    next new =>
    split
    next => trivial
    next fresh =>
    split
    next => trivial
    next g found =>
    split
    next => trivial
    next code parsed =>
    have smaller := Search.unseen_append_lt (Table.mem_keys_of_get? found) fresh
    refine Yields.bind (inTurn_yields (Advances globals (path ++ [name])) (fun name d s => s.resolved.get? name = some d)
      (.refl globals _) .trans (fun advance => advance.kept) (fun dependency _ t _ => ih _ (bound ▸ smaller) _ dependency t rfl)) ?_
    rintro ⟨ds, t⟩ ⟨dependencies, refers⟩
    exact ⟨dependencies.keep new fresh found parsed refers, Table.get?_insert_self _ _ _⟩

theorem resolveEach_yields (globals : Table Global) (names : List String) (s : Resolver) :
    Yields (inTurn (resolve globals []) names s)
      (fun made => Advances globals [] s made.2 ∧ Refers made.2.resolved names made.1) (fun _ => True) :=
  inTurn_yields (Advances globals []) (fun name d s => s.resolved.get? name = some d) (.refl globals _) .trans
    (fun advance => advance.kept) (fun name _ t _ => resolve_yields globals [] name t)

/-- The type without its dependencies. -/
def NodeType.bare (t : NodeType) : NodeType := { t with dependencies := [] }

/-- The templates of the type make the code of the implementation, whatever it depends on. -/
def NodeType.Makes (t : NodeType) (type : String) (i : Implementation) : Prop :=
  t.bare.implementation ∅ type ⟨0, ∅⟩ = .ok ({ i with dependencies := [] }, ⟨0, ∅⟩)

/-- A node type is implemented by what its templates make and by the definitions that its names stand for. -/
theorem implementation_eq_ok_iff {type : String} {t : NodeType} {i : Implementation} {u : Resolver} :
    t.implementation globals type s = .ok (i, u) ↔
      t.Makes type i ∧ inTurn (resolve globals []) t.dependencies s = .ok (i.dependencies, u) := by
  constructor
  · intro made
    obtain ⟨state, stateMade, made⟩ := bind_eq_ok_iff.mp made
    obtain ⟨inletDsp, inletDspMade, made⟩ := bind_eq_ok_iff.mp made
    obtain ⟨receivers, receiversMade, made⟩ := bind_eq_ok_iff.mp made
    obtain ⟨⟨ds, v⟩, resolved, made⟩ := bind_eq_ok_iff.mp made
    obtain ⟨core, coreMade, made⟩ := bind_eq_ok_iff.mp made
    obtain ⟨declarations, declarationsMade, made⟩ := bind_eq_ok_iff.mp made
    obtain ⟨loop, loopMade, made⟩ := bind_eq_ok_iff.mp made
    cases made
    refine ⟨bind_eq_ok_iff.mpr ⟨state, stateMade, bind_eq_ok_iff.mpr ⟨inletDsp, inletDspMade, bind_eq_ok_iff.mpr
      ⟨receivers, receiversMade, bind_eq_ok_iff.mpr ⟨([], ⟨0, ∅⟩), rfl, bind_eq_ok_iff.mpr ⟨core, coreMade, bind_eq_ok_iff.mpr
        ⟨declarations, declarationsMade, bind_eq_ok_iff.mpr ⟨loop, loopMade, rfl⟩⟩⟩⟩⟩⟩⟩, resolved⟩
  · rintro ⟨made, resolved⟩
    obtain ⟨state, stateMade, made⟩ := bind_eq_ok_iff.mp made
    obtain ⟨inletDsp, inletDspMade, made⟩ := bind_eq_ok_iff.mp made
    obtain ⟨receivers, receiversMade, made⟩ := bind_eq_ok_iff.mp made
    obtain ⟨_, none, made⟩ := bind_eq_ok_iff.mp made
    cases none
    obtain ⟨core, coreMade, made⟩ := bind_eq_ok_iff.mp made
    obtain ⟨declarations, declarationsMade, made⟩ := bind_eq_ok_iff.mp made
    obtain ⟨loop, loopMade, made⟩ := bind_eq_ok_iff.mp made
    obtain ⟨flags, locals, core', state', declarations', loop', inletDsp', receivers', ds⟩ := i
    cases made
    exact bind_eq_ok_iff.mpr ⟨state, stateMade, bind_eq_ok_iff.mpr ⟨inletDsp, inletDspMade, bind_eq_ok_iff.mpr
      ⟨receivers, receiversMade, bind_eq_ok_iff.mpr ⟨(ds, u), resolved, bind_eq_ok_iff.mpr ⟨core, coreMade, bind_eq_ok_iff.mpr
        ⟨declarations, declarationsMade, bind_eq_ok_iff.mpr ⟨loop, loopMade, rfl⟩⟩⟩⟩⟩⟩⟩

/-- One definition is known for every name of the file and every standard name, and the identities are those that the
    counter went through meanwhile. The standard names stand for the standard definitions of the registry, and wherever
    definitions and node types of the file have a name, those of the registry have the definition that is known for it. -/
structure Linked (file : RegistryFile) (known : Table Definition) (r : Registry) : Prop where
  names : known.keys.Perm (Library.Standard.names ++ file.globals.keys)
  identities : (known.values.map Definition.id).Perm (List.range' r.first known.size)
  standard : ∀ entry ∈ Library.Standard.definitions r.first, known.get? entry.1 = some entry.2
  globals : ∀ {name g}, file.globals.get? name = some g → ∃ d, known.get? name = some d ∧ g.Makes name known d
  types : r.types.keys = file.nodes.keys
  nodes : ∀ {type t}, file.nodes.get? type = some t →
    ∃ i, r.types.get? type = some i ∧ t.Makes type i ∧ Refers known t.dependencies i.dependencies

namespace Linked
variable {file : RegistryFile} {known : Table Definition} {r : Registry} {name : String} {d e : Definition}
  (linked : file.Linked known r)
include linked

theorem mem_keys_iff : name ∈ known.keys ↔ name ∈ Library.Standard.names ∨ name ∈ file.globals.keys :=
  linked.names.mem_iff.trans List.mem_append

/-- What is known is a standard definition or made of the file. -/
theorem origin (isKnown : known.get? name = some d) : (name, d) ∈ Library.Standard.definitions r.first ∨
    ∃ g, file.globals.get? name = some g ∧ g.Makes name known d := by
  rcases linked.mem_keys_iff.mp (Table.mem_keys_of_get? isKnown) with standard | declared
  · rw [← Library.Standard.map_fst_definitions r.first] at standard
    obtain ⟨⟨_, e⟩, member, rfl⟩ := List.mem_map.mp standard
    cases isKnown.symm.trans (linked.standard _ member)
    exact .inl member
  · obtain ⟨g, found⟩ := Table.mem_keys_iff.mp declared
    obtain ⟨e, isKnown', makes⟩ := linked.globals found
    cases isKnown.symm.trans isKnown'
    exact .inr ⟨g, found, makes⟩

theorem known_of_standard (standard : d ∈ r.standard) : ∃ name, known.get? name = some d := by
  obtain ⟨entry, member, rfl⟩ := List.mem_map.mp standard
  exact ⟨entry.1, linked.standard entry member⟩

/-- All definitions of the registry are known. -/
theorem known_of_holds (held : r.Holds d) : ∃ name, known.get? name = some d := by
  rcases held with standard | ⟨type, i, stored, root, member, chain⟩
  · exact linked.known_of_standard standard
  have declared : type ∈ file.nodes.keys := linked.types ▸ Table.mem_keys_of_get? stored
  obtain ⟨t, found⟩ := Table.mem_keys_iff.mp declared
  obtain ⟨i', stored', _, refers⟩ := linked.nodes found
  cases stored.symm.trans stored'
  induction chain with
  | refl =>
    obtain ⟨name, _, isKnown⟩ := exists_left_of_forall₂ refers member
    exact ⟨name, isKnown⟩
  | tail _ needs ih =>
    obtain ⟨name, isKnown⟩ := ih
    rcases linked.origin isKnown with standard | ⟨g, _, makes⟩
    · exact linked.known_of_standard (Library.Standard.mem_of_needs (List.mem_map_of_mem standard) needs)
    · obtain ⟨name, _, isKnown⟩ := exists_left_of_forall₂ makes.dependencies needs
      exact ⟨name, isKnown⟩

end Linked

section Start
variable {first : Nat}

theorem get?_start {name : String} {d : Definition} :
    (Resolver.start first).resolved.get? name = some d ↔ (name, d) ∈ Library.Standard.definitions first := by
  rw [Resolver.start, Table.get?_eq_some_iff, Table.entries_ofList (Library.Standard.map_fst_definitions first ▸ by decide)]

theorem identities_start : (Resolver.start first).resolved.values.map Definition.id = List.range' first 3 := by
  rw [Resolver.start, Table.values, Table.entries_ofList (Library.Standard.map_fst_definitions first ▸ by decide)]
  rfl

/-- All definitions of the file are resolved, and none has a standard name. -/
theorem resolveGlobals_yields (globals : Table Global) (first : Nat) :
    Yields (resolveGlobals globals first) (fun s => (∀ name ∈ Library.Standard.names, name ∉ globals.keys) ∧
      Advances globals [] (.start first) s ∧ ∀ name ∈ globals.keys, name ∈ s.resolved.keys) (fun _ => True) := by
  unfold resolveGlobals
  split
  next => trivial
  next unreserved =>
  refine (resolveEach_yields globals globals.keys (.start first)).map ?_
  rintro ⟨ds, s⟩ ⟨advance, refers⟩
  refine ⟨fun name standard declared => ?_, advance, fun name declared => ?_⟩
  · exact List.find?_eq_none.mp unreserved name standard (Table.contains_iff.mpr declared)
  · obtain ⟨d, _, known⟩ := exists_right_of_forall₂ refers declared
    exact Table.mem_keys_of_get? known

/-- What is resolved when all of the file is. -/
theorem Advances.names_perm (advance : Advances globals [] (.start first) s)
    (unreserved : ∀ name ∈ Library.Standard.names, name ∉ globals.keys) (complete : ∀ name ∈ globals.keys, name ∈ s.resolved.keys) :
    s.resolved.keys.Perm (Library.Standard.names ++ globals.keys) := by
  have nodup : (Library.Standard.names ++ globals.keys).Nodup := by
    refine List.nodup_append.mpr ⟨by decide, globals.nodup_keys, fun a standard b declared same => ?_⟩
    exact unreserved a standard (same ▸ declared)
  rw [List.perm_ext_iff_of_nodup s.resolved.nodup_keys nodup]
  intro name
  rw [List.mem_append]
  constructor
  · intro member
    obtain ⟨d, known⟩ := Table.mem_keys_iff.mp member
    rcases advance.made known with old | ⟨g, found, _⟩
    · exact .inl (Library.Standard.map_fst_definitions first ▸ List.mem_map_of_mem (get?_start.mp old))
    · exact .inr (Table.mem_keys_of_get? found)
  · rintro (standard | declared)
    · rw [← Library.Standard.map_fst_definitions first] at standard
      obtain ⟨⟨_, d⟩, member, rfl⟩ := List.mem_map.mp standard
      exact Table.mem_keys_of_get? (advance.kept (get?_start.mpr member))
    · exact complete name declared

theorem Advances.identities_perm (advance : Advances globals [] (.start first) s) :
    (s.resolved.values.map Definition.id).Perm (List.range' first s.resolved.size) := by
  obtain ⟨count, _, perm⟩ := advance.drawn
  rw [identities_start, show (Resolver.start first).next = first + 3 from rfl, List.range'_append_1] at perm
  have size := perm.length_eq
  rw [List.length_map, Table.values, List.length_map, List.length_range'] at size
  rw [Table.size, size]
  exact perm

end Start

/-- A registry that is loaded is linked. -/
theorem registry_linked (file : RegistryFile) (first : Nat) :
    Yields (file.registry first) (fun r => r.first = first ∧ ∃ known, file.Linked known r) (fun _ => True) := by
  refine Yields.bind (resolveGlobals_yields file.globals first) ?_
  rintro s ⟨unreserved, resolved, complete⟩
  refine Yields.bind (inTurn_yields (Advances file.globals [])
    (fun (entry : String × NodeType) (named : String × Implementation) u => named.1 = entry.1 ∧ entry.2.Makes entry.1 named.2 ∧
      Refers u.resolved entry.2.dependencies named.2.dependencies) (.refl file.globals _) .trans
    (fun advance made => ⟨made.1, made.2.1, advance.refers made.2.2⟩) ?_) ?_
  · rintro ⟨type, t⟩ _ u _
    refine Yields.bind ((Yields.self _).mono (fun _ made => made) (fun _ _ => trivial)) ?_
    rintro ⟨i, v⟩ made
    obtain ⟨makes, resolves⟩ := implementation_eq_ok_iff.mp made
    obtain ⟨advance, refers⟩ := (resolveEach_yields file.globals t.dependencies u).of_eq_ok resolves
    exact ⟨advance, rfl, makes, refers⟩
  · rintro ⟨types, u⟩ ⟨advance, made⟩
    have all := resolved.trans advance
    have keys : types.map Prod.fst = file.nodes.keys :=
      (map_eq_map_of_forall₂ _ _ (made.imp (fun _ _ named => named.1.symm))).symm
    have entries : (Table.ofList types).entries = types := Table.entries_ofList (keys ▸ file.nodes.nodup_keys)
    refine ⟨rfl, u.resolved, all.names_perm unreserved (fun name declared => advance.mem_keys (complete name declared)),
      all.identities_perm,
      fun entry standard => all.kept (get?_start.mpr standard), fun {name g} found => ?_, ?_, fun {type t} found => ?_⟩
    · obtain ⟨d, known⟩ := Table.mem_keys_iff.mp (complete name (Table.mem_keys_of_get? found))
      have now := advance.kept known
      refine ⟨d, now, ?_⟩
      rcases all.made now with old | ⟨g', found', makes⟩
      · refine absurd (Table.mem_keys_of_get? found) (unreserved name ?_)
        exact Library.Standard.map_fst_definitions first ▸ List.mem_map_of_mem (get?_start.mp old)
      · cases found.symm.trans found'
        exact makes
    · show (Table.ofList types).entries.map Prod.fst = file.nodes.keys
      rw [entries, keys]
    · obtain ⟨⟨name, i⟩, member, same, makes, refers⟩ := exists_right_of_forall₂ made (Table.get?_eq_some_iff.mp found)
      obtain rfl : name = type := same
      refine ⟨i, ?_, makes, refers⟩
      show (Table.ofList types).get? name = some i
      rw [Table.get?_eq_some_iff, entries]
      exact member

end RegistryFile

namespace Registry

theorem read_eq_ok_iff {first : Nat} {text : String} {r : Registry} :
    Registry.read first text = .ok r ↔ ∃ file, RegistryFile.decode.run text = some file ∧ file.registry first = .ok r := by
  unfold Registry.read
  cases RegistryFile.decode.run text <;> simp

/-- The identities of what a node type depends on, each with those of its own dependencies. -/
def identities (r : Registry) (type : String) : Option (List (Nat × List Nat)) :=
  (r.types.get? type).map (fun i => i.dependencies.map (fun d => (d.id, d.dependencies.map Definition.id)))

end Registry
end DspPatch
