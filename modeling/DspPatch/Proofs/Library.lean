import DspPatch.Library.Collect
import DspPatch.Library.Standard
import DspPatch.Proofs.Symbols
import DspPatch.Registry.Basic
import Mathlib.Logic.Relation

/-!
Collecting shared code. Flattening lists nothing but what the roots need, and lists the standard definitions first. All
names of the definitions that are listed get symbols before any code is made, so that making the code can only fail in a
generator of the registry.
-/
namespace DspPatch
open Relation

namespace Definition
variable {d e : Definition} {roots done : List Definition}

/-- The definition has the other one among its dependencies. -/
def Needs (d dependency : Definition) : Prop := dependency ∈ d.dependencies

theorem sizeOf_lt_of_needs (needs : d.Needs e) : sizeOf e < sizeOf d := by
  have inside := List.sizeOf_lt_of_mem needs
  cases d
  simp only [mk.sizeOf_spec] at inside ⊢
  omega

/-- No definition needs itself, neither directly nor through others. -/
theorem not_needs_self : ¬TransGen Needs d d := by
  have smaller : ∀ {d e}, TransGen Needs d e → sizeOf e < sizeOf d := by
    intro d e chain
    induction chain with
    | single needs => exact sizeOf_lt_of_needs needs
    | tail _ needs ih => exact Nat.lt_trans (sizeOf_lt_of_needs needs) ih
  exact fun cycle => Nat.lt_irrefl _ (smaller cycle)

/-- A definition is made of its dependencies, so that what it inherits from them holds of all definitions. -/
theorem induction {motive : Definition → Prop} (step : ∀ d, (∀ dependency ∈ d.dependencies, motive dependency) → motive d)
    (d : Definition) : motive d :=
  step d (fun dependency _ => induction step dependency)
termination_by d
decreasing_by exact sizeOf_lt_of_needs ‹_›

/-- The definition is one of the roots or one that they need. -/
def Reaches (roots : List Definition) (d : Definition) : Prop := ∃ root ∈ roots, ReflTransGen Needs root d

theorem isListed_iff {id : Nat} : isListed id done = true ↔ ∃ d ∈ done, d.id = id := by
  simp [isListed]

theorem flattenInto_eq (d : Definition) (done : List Definition) :
    d.flattenInto done = if isListed d.id done then done else d.list (flattenEach d.dependencies done) := by
  cases d
  rw [flattenInto]

theorem flattenEach_append (roots others done : List Definition) :
    flattenEach (roots ++ others) done = flattenEach others (flattenEach roots done) := by
  induction roots generalizing done with
  | nil => rw [List.nil_append, flattenEach]
  | cons root roots ih => rw [List.cons_append, flattenEach, flattenEach, ih]

theorem isListed_mono {id : Nat} {after : List Definition} (grows : done <+: after) (listed : isListed id done) :
    isListed id after := by
  obtain ⟨d, member, same⟩ := isListed_iff.mp listed
  exact isListed_iff.mpr ⟨d, grows.subset member, same⟩

theorem isListed_list (d : Definition) (done : List Definition) : isListed d.id (d.list done) := by
  unfold list
  split
  next listed => exact listed
  next => exact isListed_iff.mpr ⟨d, List.mem_append_right done List.mem_cons_self, rfl⟩

theorem mem_list (member : e ∈ d.list done) : e = d ∨ e ∈ done := by
  unfold list at member
  split at member
  next => exact .inr member
  next => exact (List.mem_append.mp member).symm.imp_left List.mem_singleton.mp

theorem isPrefix_list (d : Definition) (done : List Definition) : done <+: d.list done := by
  unfold list
  split
  next => exact List.prefix_refl done
  next => exact List.prefix_append done [d]

/-- What one definition after another keeps, all of them keep. -/
theorem flattenEach_spec (inv : List Definition → Prop) (each : ∀ root ∈ roots, ∀ done, inv done →
      inv (root.flattenInto done) ∧ done <+: root.flattenInto done ∧ isListed root.id (root.flattenInto done))
    (start : inv done) : inv (flattenEach roots done) ∧ done <+: flattenEach roots done ∧
      ∀ root ∈ roots, isListed root.id (flattenEach roots done) := by
  induction roots generalizing done with
  | nil =>
    rw [flattenEach]
    exact ⟨start, List.prefix_refl done, List.forall_mem_nil _⟩
  | cons root roots ih =>
    rw [List.forall_mem_cons] at each
    obtain ⟨holds, grows, listed⟩ := each.1 done start
    obtain ⟨holds, growsMore, others⟩ := ih each.2 holds
    rw [flattenEach]
    exact ⟨holds, grows.trans growsMore, List.forall_mem_cons.mpr ⟨isListed_mono growsMore listed, others⟩⟩

/-- Flattening lists definitions one after another, each when its dependencies are listed. -/
theorem flattenInto_spec (inv : List Definition → Prop) (step : ∀ e done, ReflTransGen Needs d e →
      (∀ dependency ∈ e.dependencies, isListed dependency.id done) → inv done → inv (e.list done)) (start : inv done) :
    inv (d.flattenInto done) ∧ done <+: d.flattenInto done ∧ isListed d.id (d.flattenInto done) := by
  induction d using Definition.induction generalizing done with
  | step d ih =>
    rw [flattenInto_eq]
    split
    next listed => exact ⟨start, List.prefix_refl done, listed⟩
    next =>
      have each : ∀ dependency ∈ d.dependencies, ∀ done, inv done → inv (dependency.flattenInto done) ∧
          done <+: dependency.flattenInto done ∧ isListed dependency.id (dependency.flattenInto done) :=
        fun dependency needed done holds => ih dependency needed (fun e done chain => step e done (.head needed chain)) holds
      obtain ⟨holds, grows, dependencies⟩ := flattenEach_spec inv each start
      exact ⟨step d _ .refl dependencies holds, grows.trans (isPrefix_list d _), isListed_list d _⟩

/-- What listing a definition keeps, flattening keeps. -/
theorem flatten_keeps (inv : List Definition → Prop) (step : ∀ e done, Reaches roots e →
      (∀ dependency ∈ e.dependencies, isListed dependency.id done) → inv done → inv (e.list done)) (start : inv []) :
    inv (flatten roots) :=
  (flattenEach_spec inv (fun root member _ => flattenInto_spec inv (fun e done chain => step e done ⟨root, member, chain⟩))
    start).1

/-- What is listed stays, and the roots are listed behind it. -/
theorem flattenEach_grows (roots done : List Definition) :
    done <+: flattenEach roots done ∧ ∀ root ∈ roots, isListed root.id (flattenEach roots done) :=
  (flattenEach_spec (fun _ => True) (fun _ _ _ => flattenInto_spec (fun _ => True) (fun _ _ _ _ _ => trivial)) trivial).2

/-- Only what the roots need is listed. -/
theorem reaches_of_mem_flatten (member : d ∈ flatten roots) : Reaches roots d := by
  have sound : ∀ d ∈ flatten roots, Reaches roots d := by
    refine flatten_keeps (fun done => ∀ d ∈ done, Reaches roots d) (fun e done reached _ sound other listed => ?_)
      (List.forall_mem_nil _)
    rcases mem_list listed with rfl | earlier
    · exact reached
    · exact sound other earlier
  exact sound d member

end Definition

namespace Library.Standard
variable {first : Nat} {entry : String × Definition}

theorem map_fst_definitions (first : Nat) : (definitions first).map Prod.fst = names := rfl

/-- Standard definitions depend on standard definitions alone. -/
theorem mem_of_needs {d e : Definition} (standard : d ∈ (definitions first).map Prod.snd) (needs : d.Needs e) :
    e ∈ (definitions first).map Prod.snd := by
  simp only [definitions, names, List.zip_cons_cons, List.zip_nil_right, List.map_cons, List.map_nil, List.mem_cons,
    List.not_mem_nil, or_false] at standard ⊢
  rcases standard with rfl | rfl | rfl
  · cases needs
  · exact .inl (List.mem_singleton.mp needs)
  · exact .inl (List.mem_singleton.mp needs)

/-- They are listed as they are made. -/
theorem flattenEach_definitions (first : Nat) :
    Definition.flattenEach ((definitions first).map Prod.snd) [] = (definitions first).map Prod.snd := by
  simp [definitions, names, Definition.flattenEach, Definition.flattenInto, Definition.list, Definition.isListed, core, msg,
    commons]

end Library.Standard

namespace Registry
open Library.Standard
variable {r : Registry} {d : Definition}

theorem mem_standard : d ∈ r.standard ↔ d = core r.first ∨ d = msg (r.first + 1) (core r.first) ∨
    d = commons (r.first + 2) (core r.first) := by
  simp [standard, definitions, names]

/-- The definitions of the registry: the standard ones and all that its node types need. -/
def Holds (r : Registry) (d : Definition) : Prop :=
  d ∈ r.standard ∨ ∃ type i, r.types.get? type = some i ∧ Definition.Reaches i.dependencies d

theorem Holds.needs {e : Definition} (held : r.Holds d) (needs : d.Needs e) : r.Holds e := by
  rcases held with standard | ⟨type, i, registered, root, member, chain⟩
  · exact .inl (Library.Standard.mem_of_needs standard needs)
  · exact .inr ⟨type, i, registered, root, member, chain.tail needs⟩

/-- What the standard definitions and others of the registry reach is held by the registry. -/
theorem holds_of_reaches {roots : List Definition} (held : ∀ root ∈ roots, r.Holds root)
    (reached : Definition.Reaches (r.standard ++ roots) d) : r.Holds d := by
  obtain ⟨root, member, chain⟩ := reached
  induction chain with
  | refl => exact (List.mem_append.mp member).elim .inl (held root)
  | tail _ needs ih => exact ih.needs needs

/-- Whatever else is asked for, the standard definitions are listed first. -/
theorem standard_isPrefix_flatten (r : Registry) (roots : List Definition) :
    r.standard <+: Definition.flatten (r.standard ++ roots) := by
  have split : Definition.flatten (r.standard ++ roots) = Definition.flattenEach roots r.standard := by
    rw [Definition.flatten, Definition.flattenEach_append, standard, Library.Standard.flattenEach_definitions]
  rw [split]
  exact (Definition.flattenEach_grows roots r.standard).1

end Registry

/-- All names of the definition have symbols. -/
def Symbols.Knows (s : Symbols) (d : Definition) : Prop := ∀ own ∈ d.names, s.at? (.global d.tag own) ≠ none

/-- The symbols of several local names: those given stay, also when one of them cannot be given. -/
theorem Symbols.attachGlobals_spec (s : Symbols) (names : List (String × String)) :
    s.Grows (s.attachGlobals names).2 ∧
      Yields (s.attachGlobals names).1
        (fun _ => ∀ entry ∈ names, (s.attachGlobals names).2.at? (.global entry.1 entry.2) ≠ none)
        CompileError.IsName := by
  induction names generalizing s with
  | nil => exact ⟨.refl s, List.forall_mem_nil _⟩
  | cons entry rest ih =>
    obtain ⟨tag, name⟩ := entry
    have outcome := s.attachGlobal_yields tag name
    rw [attachGlobals]
    cases result : s.attachGlobal tag name with
    | error e => exact ⟨.refl s, outcome.of_eq_error result⟩
    | ok named =>
      obtain ⟨symbol, t⟩ := named
      have assigns : s.Assigns (.global tag name) symbol t := outcome.of_eq_ok result
      obtain ⟨grows, given⟩ := ih t
      refine ⟨assigns.grows.trans grows, given.mono (fun _ later => ?_) (fun _ bad => bad)⟩
      refine List.forall_mem_cons.mpr ⟨grows.present ?_, later⟩
      rw [assigns.at?_eq]
      exact Option.some_ne_none symbol

/-- Adding a definition whose names have symbols fails only in its generator. -/
theorem SharedCode.addDefinition_yields {s : Symbols} {settings : Settings} (shared : SharedCode) {d : Definition}
    (named : s.Knows d) :
    Yields (shared.addDefinition s settings d) (fun _ => True) (fun e => d.code ⟨d.tag, s, settings⟩ = .error e) := by
  have read : ∀ name ∈ d.names, ∃ symbol, (⟨d.tag, s, settings⟩ : DefinitionContext).localSymbol name = .ok symbol := by
    intro name member
    obtain ⟨symbol, stored⟩ := Option.ne_none_iff_exists'.mp (named name member)
    exact ⟨symbol, Symbols.global_eq_ok_iff.mpr stored⟩
  have imports : ∀ spec ∈ d.imports, spec.name ∈ d.names := by
    intro spec member
    exact List.mem_append_left _ (List.mem_append_right _ (List.mem_map_of_mem member))
  refine Yields.bind ((Yields.self _).mono (fun _ _ => trivial) (fun _ failed => failed)) (fun code _ => ?_)
  refine Yields.bind (Yields.foldlM (fun _ _ => True) trivial (fun done spec rest now split _ => ?_)) (fun now _ => ?_)
  · obtain ⟨symbol, result⟩ := read spec.name (imports spec (by simp [split]))
    rw [result]
    trivial
  · refine Yields.foldlM (fun _ _ => True) trivial (fun done name rest now split _ => ?_)
    obtain ⟨symbol, result⟩ := read name (List.mem_append_right _ (by simp [split]))
    rw [result]
    trivial

theorem SharedCode.nodup_addExport {shared : SharedCode} (once : shared.exports.Nodup) (symbol : String) :
    (shared.addExport symbol).exports.Nodup := by
  unfold addExport
  by_cases known : symbol ∈ shared.exports
  · simpa [known] using once
  · simp only [List.contains_iff_mem, known, if_false, List.nodup_append, once, true_and]
    refine ⟨by simp, ?_⟩
    rintro a member b isLast rfl
    exact known (List.mem_singleton.mp isLast ▸ member)

theorem SharedCode.addDefinition_exports {s : Symbols} {settings : Settings} {shared : SharedCode} {d : Definition}
    (once : shared.exports.Nodup) :
    Yields (shared.addDefinition s settings d) (fun later => later.exports.Nodup) (fun _ => True) := by
  refine Yields.bind (.any _) (fun code _ => ?_)
  have added : (shared.addCode code).exports.Nodup := by
    unfold addCode
    split
    · exact once
    · exact once
  refine Yields.bind (Yields.foldlM (fun _ (now : SharedCode) => now.exports.Nodup) added (fun _ spec _ now _ holds => ?_))
    (fun imported holds => ?_)
  · refine Yields.bind (.any _) (fun symbol _ => ?_)
    show (now.addImport symbol spec).exports.Nodup
    unfold addImport
    split
    · exact holds
    · exact holds
  · refine Yields.foldlM (fun _ (now : SharedCode) => now.exports.Nodup) holds (fun _ name _ now _ holds => ?_)
    exact Yields.bind (.any _) (fun symbol _ => nodup_addExport holds symbol)

/-- Nothing is exported twice by shared code. -/
theorem SharedCode.collect_exports (roots : List Definition) (settings : Settings) (s : Symbols) :
    Yields (collect roots settings s).1 (fun shared => shared.exports.Nodup) (fun _ => True) := by
  refine Yields.bind (.any _) (fun _ _ => ?_)
  exact Yields.foldlM (fun _ (now : SharedCode) => now.exports.Nodup) .nil (fun _ _ _ _ _ holds => addDefinition_exports holds)

/-- Collecting gives all names of the definitions that are listed their symbols, and fails at a name, or in the generator of
    one of them when all names have been given. -/
theorem SharedCode.collect_spec (roots : List Definition) (settings : Settings) (s : Symbols) :
    s.Grows (collect roots settings s).2 ∧
      Yields (collect roots settings s).1 (fun _ => ∀ d ∈ Definition.flatten roots, (collect roots settings s).2.Knows d)
        (fun e => e.IsName ∨ ∃ d ∈ Definition.flatten roots, ∃ c : DefinitionContext, c.tag = d.tag ∧
          (∀ other ∈ Definition.flatten roots, c.symbols.Knows other) ∧ d.code c = .error e) := by
  unfold collect
  obtain ⟨grows, given⟩ :=
    s.attachGlobals_spec ((Definition.flatten roots).flatMap (fun d => d.names.map (fun n => (d.tag, n))))
  refine ⟨grows, ?_⟩
  refine Yields.bind (given.mono (fun _ post => post) (fun _ bad => .inl bad)) (fun _ named => ?_)
  have definitions : ∀ d ∈ Definition.flatten roots, (s.attachGlobals ((Definition.flatten roots).flatMap
      (fun d => d.names.map (fun n => (d.tag, n))))).2.Knows d := by
    intro d listed own member
    exact named (d.tag, own) (List.mem_flatMap.mpr ⟨d, listed, List.mem_map_of_mem member⟩)
  refine (Yields.foldlM (fun _ _ => True) trivial (fun done d rest now split _ => ?_)).mono (fun _ _ => definitions)
    (fun _ bad => bad)
  have listed : d ∈ Definition.flatten roots := by simp [split]
  refine (now.addDefinition_yields (definitions d listed)).mono (fun _ post => post) (fun e failed => ?_)
  exact .inr ⟨d, listed, _, rfl, definitions, failed⟩

end DspPatch
