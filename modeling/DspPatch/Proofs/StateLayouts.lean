import DspPatch.Proofs.Draft.StateCode
import DspPatch.Proofs.GivenSymbols
import DspPatch.Proofs.TypeTags
import Mathlib.Algebra.Order.Group.Multiset

/-!
State layouts. Two nodes of one type that both declare members declare the same ones: the program has one class for them,
whose name no other type has, and one state for each. A node that declares no members is compared with nothing, so it may
stand beside nodes of its type that have a state. That is the only way in which layouts of one type can differ
(`state_layouts_agree_iff`).
-/
namespace DspPatch

/-- The class that an element is. -/
def Element.record? : Element → Option Class
  | .record c => some c
  | _ => none

/-- The constant that an element is. -/
def Element.constant? : Element → Option Var
  | .constant v => some v
  | _ => none

/-- The classes of a sequence, in order. -/
def Sequence.records (s : Sequence) : List Class := s.content.filterMap Element.record?

/-- The constants of a sequence, in order. -/
def Sequence.constants (s : Sequence) : List Var := s.content.filterMap Element.constant?

/-- The constant that a state is, with the first value of each member. -/
def NodeState.constant (state : NodeState) : Var :=
  let members := state.members.map (fun m => s!"{m.name}: {m.value},")
  .withCode state.className state.symbol ("\x7b\n" ++ "\n".intercalate members ++ "\n\x7d")

/-- Exactly one entry of a table is picked. -/
theorem Table.filter_filterMap_values {α β : Type} {t : Table α} {f : α → Option β} {p : β → Bool} {key : String} {b : β}
    (stored : (t.get? key).bind f = some b) (holds : p b = true)
    (only : ∀ other b', (t.get? other).bind f = some b' → p b' = true → other = key) :
    (t.values.filterMap f).filter p = [b] := by
  obtain ⟨value, found, picked⟩ := Option.bind_eq_some_iff.mp stored
  obtain ⟨before, after, split⟩ := List.append_of_mem (Table.get?_eq_some_iff.mp found)
  have nodup := t.nodup_keys
  rw [Table.keys, split, List.map_append, List.map_cons, List.nodup_append, List.nodup_cons] at nodup
  have nothing : ∀ entries : List (String × α), (∀ entry ∈ entries, entry ∈ t.entries ∧ entry.1 ≠ key) →
      ((entries.map Prod.snd).filterMap f).filter p = [] := by
    intro entries away
    refine List.filter_eq_nil_iff.mpr (fun b' member isPicked => ?_)
    obtain ⟨_, listed, made⟩ := List.mem_filterMap.mp member
    obtain ⟨entry, inside, rfl⟩ := List.mem_map.mp listed
    obtain ⟨stored, other⟩ := away entry inside
    exact other (only entry.1 b' (Option.bind_eq_some_iff.mpr ⟨_, Table.get?_eq_some_iff.mpr stored, made⟩) isPicked)
  have first := nothing before (fun entry inside => ⟨by simp [split, inside], fun same =>
    nodup.2.2 _ (List.mem_map_of_mem inside) _ List.mem_cons_self same⟩)
  have last := nothing after (fun entry inside => ⟨by simp [split, inside], fun same =>
    nodup.2.1.1 (List.mem_map.mpr ⟨entry, inside, same⟩)⟩)
  rw [Table.values, split, List.map_append, List.map_cons, List.filterMap_append, List.filter_append, first,
    List.filterMap_cons, picked, List.nil_append, List.filter_cons_of_pos holds, last]

namespace Draft
variable {d : Draft} {s : Symbols}

/-- The code that implementations bring: shared code, the cores of types and the declarations of nodes. -/
def codeElements (d : Draft) : List Element :=
  d.shared.code.content ++ d.types.values.flatMap (fun t => (t.core.getD .empty).content) ++
    d.nodes.values.flatMap initializationElements

/-- The states of the nodes of a type, in order. -/
def statesOf (g : Graph) (d : Draft) (type : String) : List NodeState :=
  (d.nodes.entries.filter (fun entry => (g.get? entry.1).map Node.type = some type)).filterMap (fun entry => entry.2.state)

/-- The engine's own constants, where `create` is the function that makes messages. -/
def engineConstants (create : String) : List Var :=
  [.withCode "Float" Engine.nullSignal "0", .withCode "Message" Engine.emptyMessage (create ++ "([])")]

/-- The constants that the states of nodes are. -/
def stateConstants (d : Draft) : List Var := (d.nodes.values.filterMap NodeDraft.state).map NodeState.constant

/-- The classes of the types. -/
def stateClasses (d : Draft) : List Class := d.types.values.filterMap TypeDraft.stateClass

theorem flatMap_stateElements (d : Draft) : d.nodes.values.flatMap stateElements = d.stateConstants.map .constant := by
  rw [stateConstants, List.map_map, List.map_filterMap, List.filterMap_eq_flatMap_toList]
  rfl

/-- The elements of a type are its class and its core. -/
theorem flatMap_typeElements (d : Draft) : (d.types.values.flatMap typeElements).Perm
    (d.stateClasses.map .record ++ d.types.values.flatMap (fun t => (t.core.getD .empty).content)) := by
  have classes : d.stateClasses.map Element.record =
      d.types.values.flatMap (fun t => (t.stateClass.map Element.record).toList) := by
    rw [stateClasses, List.map_filterMap, List.filterMap_eq_flatMap_toList]
  rw [classes]
  exact (List.flatMap_append_perm _ _ _).symm

/-- What is picked from a program, but for code, variables, loops and functions: constants of the engine, states and
    classes, and what implementations bring. -/
theorem filterMap_program_perm {α : Type} (pick : Element → Option α) (plain : ∀ text, pick (.code text) = none)
    (unstored : ∀ v, pick (.variable v) = none) (loops : ∀ loop, pick (.frameLoop loop) = none)
    (functions : ∀ f, pick (.function f) = none) {program : Sequence} (assembled : d.program s = .ok program) :
    ∃ create, (program.content.filterMap pick).Perm (((engineConstants create ++ d.stateConstants).map Element.constant ++
      d.stateClasses.map Element.record ++ d.codeElements).filterMap pick) := by
  obtain ⟨globals, cold, globalsMade, _, picked⟩ := filterMap_program pick plain unstored loops assembled
  obtain ⟨create, _, globalsMade⟩ := bind_eq_ok_iff.mp globalsMade
  have engine : globals.filterMap pick = ((engineConstants create).map Element.constant).filterMap pick := by
    cases globalsMade
    simp [engineConstants, List.filterMap_cons, unstored, functions]
  have receivers : (d.nodes.values.flatMap receiverElements).filterMap pick = [] := by
    simp [List.filterMap_flatMap, receiverElements, functions]
  have senders : (d.nodes.values.flatMap senderElements).filterMap pick = [] := by
    simp [List.filterMap_flatMap, senderElements, functions]
  have callers : (d.inletCallers.map callerElement).filterMap pick = [] := by simp [callerElement, functions]
  have groups : (cold.map Element.function).filterMap pick = [] := by simp [functions]
  refine ⟨create, ?_⟩
  rw [picked, flatMap_stateElements]
  simp only [codeElements, List.map_append, List.filterMap_append, receivers, senders, callers, groups, List.append_nil]
  have types := d.flatMap_typeElements.filterMap pick
  rw [List.filterMap_append, ← Multiset.coe_eq_coe] at types
  rw [← Multiset.coe_eq_coe]
  simp only [← Multiset.coe_add, types, engine]
  ac_rfl

/-- The classes of a program are those of the types and those that code brings. -/
theorem records_program {program : Sequence} (assembled : d.program s = .ok program) :
    program.records.Perm (d.stateClasses ++ d.codeElements.filterMap Element.record?) := by
  obtain ⟨create, picked⟩ := filterMap_program_perm Element.record? (fun _ => rfl) (fun _ => rfl) (fun _ => rfl)
    (fun _ => rfl) assembled
  refine picked.trans (.of_eq ?_)
  simp [List.filterMap_append, List.filterMap_map, Function.comp_def, Element.record?]

/-- The constants of a program are those of the engine, the states of the nodes and those that code brings. -/
theorem constants_program {program : Sequence} (assembled : d.program s = .ok program) :
    ∃ create, program.constants.Perm
      (engineConstants create ++ d.stateConstants ++ d.codeElements.filterMap Element.constant?) := by
  obtain ⟨create, picked⟩ := filterMap_program_perm Element.constant? (fun _ => rfl) (fun _ => rfl) (fun _ => rfl)
    (fun _ => rfl) assembled
  refine ⟨create, picked.trans (.of_eq ?_)⟩
  simp [List.filterMap_append, List.filterMap_map, Function.comp_def, Element.constant?]

end Draft

namespace Symbols
variable {s : Symbols} {type name : String}

theorem classOf?_eq (shaped : s.Shaped) (given : s.classOf? type = some name) :
    ∃ tag, s.at? (.typeTag type) = some tag ∧ name = tag ++ "_" ++ "State" := by
  obtain ⟨tag, tagged, named⟩ := Option.bind_eq_some_iff.mp given
  exact ⟨tag, tagged, shaped _ _ named⟩

/-- No two types have classes of the same name. -/
theorem classOf?_injective (shaped : s.Shaped) (distinct : s.TagsDistinct) {other : String}
    (given : s.classOf? type = some name) (givenToo : s.classOf? other = some name) : other = type := by
  obtain ⟨tag, tagged, rfl⟩ := classOf?_eq shaped given
  obtain ⟨tagToo, taggedToo, same⟩ := classOf?_eq shaped givenToo
  rw [String.append_left_inj, String.append_left_inj] at same
  exact distinct other type tag (same ▸ taggedToo) tagged

/-- The name of a class is no type that the engine uses. -/
theorem classOf?_ne (shaped : s.Shaped) (given : s.classOf? type = some name) {plain : String}
    (without : '_' ∉ plain.toList) : plain ≠ name := by
  rintro rfl
  obtain ⟨tag, _, rfl⟩ := classOf?_eq shaped given
  exact without (by simp)

end Symbols

/-- How a program serves a type whose nodes have states: there is one class, and one state for every node that declares
    members. Others can only come with code. -/
structure ClassServed (g : Graph) (d : Draft) (result : CompiledProgram) (type name : String)
    (members : List StateMember) : Prop where
  named : result.symbols.classOf? type = some name
  only : ∀ other, result.symbols.classOf? other = some name → other = type
  declared : (result.program.records.filter (fun c => c.name = name)).Perm
    (⟨name, members.map (fun m => Var.plain m.type m.name)⟩ ::
      (d.codeElements.filterMap Element.record?).filter (fun c => c.name = name))
  instances : (result.program.constants.filter (fun v => v.type = name)).Perm
    ((d.statesOf g type).map NodeState.constant ++
      (d.codeElements.filterMap Element.constant?).filter (fun v => v.type = name))

namespace Draft
variable {input : BuildInput} {w : Workspace}

/-- The states of a class are those of the nodes of its type. -/
theorem StatesAgree.filter_states (agree : StatesAgree input w.draft.nodes.keys w) (shaped : w.symbols.Shaped)
    (distinct : w.symbols.TagsDistinct) (present : ∀ id ∈ w.draft.nodes.keys, ∃ n, input.graph.get? id = some n)
    {type name : String} (named : w.symbols.classOf? type = some name) :
    (w.draft.nodes.values.filterMap NodeDraft.state).filter (fun state => state.className = name) =
      w.draft.statesOf input.graph type := by
  rw [statesOf, Table.values, List.filterMap_map, List.filter_filterMap, List.filterMap_filter]
  refine List.filterMap_congr (fun entry member => ?_)
  obtain ⟨id, m⟩ := entry
  have stored : w.draft.nodes.get? id = some m := Table.get?_eq_some_iff.mpr member
  obtain ⟨n, found⟩ := present id (Table.mem_keys_of_get? stored)
  cases has : m.state with
  | none => simp [has]
  | some state =>
    have own := (agree.states id (Table.mem_keys_of_get? stored) n.type state ⟨n, m, found, rfl, stored, has⟩).named
    have same : state.className = name ↔ n.type = type := by
      constructor
      · intro equal
        exact Symbols.classOf?_injective shaped distinct named (equal ▸ own)
      · intro equal
        exact Option.some.inj ((equal ▸ own).symm.trans named)
    by_cases isOwn : n.type = type
    · simp [has, found, isOwn, same.mpr isOwn]
    · simp [has, found, isOwn, mt same.mp isOwn]

/-- The class of a type that has one. -/
theorem StatesAgree.filter_classes (agree : StatesAgree input w.draft.nodes.keys w) (shaped : w.symbols.Shaped)
    (distinct : w.symbols.TagsDistinct) {type : String} {c : Class} (isClass : w.draft.class? type = some c) :
    w.draft.stateClasses.filter (fun other => other.name = c.name) = [c] := by
  refine Table.filter_filterMap_values isClass (by simp) (fun other c' stored same => ?_)
  have named := agree.name_eq isClass
  rw [← of_decide_eq_true same] at named
  exact Symbols.classOf?_injective shaped distinct named (agree.name_eq stored)

end Draft

namespace Passes
variable {input : BuildInput} {full : List String} {passes : Passes input full} {p : Partition}

theorem Lead.statesAgree (lead : passes.Lead p) (keyed : ∀ {id n}, input.graph.get? id = some n → n.id = id) :
    Draft.StatesAgree input passes.finished.draft.nodes.keys passes.finished ∧
      ∀ id m, passes.finished.draft.nodes.get? id = some m →
        Draft.StateGenerated input passes.finished.symbols id m := by
  have started := (Draft.start_yields input.graph full).of_eq_ok passes.starts
  obtain ⟨resolved, _, fresh⟩ := (Draft.resolvePortlets_ends keyed started).of_run passes.resolves
  obtain ⟨_, _, collected⟩ := (Draft.collectDependencies_ends resolved fresh).of_run passes.collects
  obtain ⟨_, _, same⟩ := lead.synthesis.rest
  have types : passes.spoken.draft.types = passes.collected.draft.types := by
    rw [same]
    exact lead.division.types
  have classless : ∀ type, passes.spoken.draft.class? type = none := by
    intro type
    rw [Draft.class?, types, Option.bind_eq_none_iff]
    exact fun t stored => collected.classless type t stored
  have present : ∀ id ∈ passes.spoken.draft.nodes.keys, ∃ n, input.graph.get? id = some n := by
    intro id member
    rw [lead.synthesis.keys, lead.division.keys] at member
    exact lead.prepared.present id ((lead.prepared.keys id).mp member)
  exact (Draft.finish_states lead.synthesis.staged present classless).of_run passes.finishes

theorem Lead.classServed (lead : passes.Lead p) (keyed : ∀ {id n}, input.graph.get? id = some n → n.id = id)
    {id type : String} {state : NodeState} (isState : Draft.StateOf input passes.finished.draft id type state)
    (provenance : Provenance) :
    ClassServed input.graph passes.finished.draft (passes.result provenance) type state.className state.members := by
  obtain ⟨agree, _⟩ := lead.statesAgree keyed
  have distinct := passes.tagsDistinct
  have member : id ∈ passes.finished.draft.nodes.keys := by
    obtain ⟨_, _, _, _, stored, _⟩ := isState
    exact Table.mem_keys_of_get? stored
  obtain ⟨_, _, named, isClass⟩ := agree.states id member type state isState
  have present : ∀ id ∈ passes.finished.draft.nodes.keys, ∃ n, input.graph.get? id = some n :=
    fun id listed => lead.prepared.present id ((lead.mem_keys_iff id).mp listed)
  refine ⟨named, fun other given => Symbols.classOf?_injective lead.shaped distinct named given, ?_, ?_⟩
  · have classes := agree.filter_classes lead.shaped distinct isClass
    refine ((Draft.records_program passes.assembles).filter _).trans (.of_eq ?_)
    rw [List.filter_append, show (fun c : Class => decide (c.name = state.className)) =
      (fun c => decide (c.name = state.record.name)) from rfl, classes]
    rfl
  · obtain ⟨create, constants⟩ := Draft.constants_program passes.assembles
    refine (constants.filter _).trans (.of_eq ?_)
    have float : "Float" ≠ state.className := Symbols.classOf?_ne lead.shaped named (by decide)
    have message : "Message" ≠ state.className := Symbols.classOf?_ne lead.shaped named (by decide)
    have engine : (Draft.engineConstants create).filter (fun v => v.type = state.className) = [] := by
      simp [Draft.engineConstants, Var.withCode, float, message]
    have states : passes.finished.draft.stateConstants.filter (fun v => v.type = state.className) =
        (passes.finished.draft.statesOf input.graph type).map NodeState.constant := by
      rw [← agree.filter_states lead.shaped distinct present named, Draft.stateConstants, List.filter_map]
      rfl
    rw [List.filter_append, List.filter_append, engine, states, List.nil_append]

end Passes

variable {g : Graph} {r : Registry}

/-- Nodes of one type that are compiled declare the same members, unless some of them declare members and others none.
    The nodes that declare members share one class and have one state each. -/
theorem state_layouts_agree_iff {request : SettingsRequest} {result : CompiledProgram}
    (compiled : compile g r request = .ok result) :
    ∃ d, (Compilation.run { graph := g, registry := r, request } .assemble).2.draft = some d ∧
      (∀ id, id ∈ d.nodes.keys ↔ id ∈ result.traversal) ∧
      (∀ id m, d.nodes.get? id = some m →
        Draft.StateGenerated ⟨g.trim result.traversal, r, result.settings⟩ result.symbols id m) ∧
      (∀ a b x y m k, (g.trim result.traversal).get? a = some x → (g.trim result.traversal).get? b = some y →
        x.type = y.type → d.nodes.get? a = some m → d.nodes.get? b = some k →
        (Draft.layout m.members = Draft.layout k.members ↔ (m.members = [] ↔ k.members = []))) ∧
      ∀ id n m, (g.trim result.traversal).get? id = some n → d.nodes.get? id = some m → m.members ≠ [] →
        ∃ name symbol, result.symbols.at? (.state id) = some symbol ∧ m.state = some ⟨symbol, name, m.members⟩ ∧
          ClassServed (g.trim result.traversal) d result n.type name m.members := by
  obtain ⟨s, full, _, _, passes, rfl, draft⟩ := exists_passes compiled
  obtain ⟨p, lead⟩ := passes.exists_lead (Graph.keyed_trim g full)
  obtain ⟨agree, generated⟩ := lead.statesAgree (Graph.keyed_trim g full)
  refine ⟨_, draft, lead.mem_keys_iff, generated, fun a b x y m k xFound yFound sameType mStored kStored => ?_,
    fun id n m found stored declares => ?_⟩
  · have nil : ∀ members : List StateMember, Draft.layout members = [] ↔ members = [] := fun _ => List.map_eq_nil_iff
    constructor
    · intro same
      rw [← nil, ← nil, same]
    · intro alike
      by_cases none : m.members = []
      · rw [none, alike.mp none]
      · obtain ⟨first, mHas⟩ := m.exists_state none
        obtain ⟨second, kHas⟩ := k.exists_state (mt alike.mpr none)
        rw [m.members_of_state mHas, k.members_of_state kHas]
        exact agree.layout_eq (Table.mem_keys_of_get? mStored) (Table.mem_keys_of_get? kStored)
          ⟨x, m, xFound, rfl, mStored, mHas⟩ ⟨y, k, yFound, sameType.symm, kStored, kHas⟩
  · obtain ⟨state, has⟩ := m.exists_state declares
    have isState : Draft.StateOf ⟨g.trim full, r, s⟩ passes.finished.draft id n.type state :=
      ⟨n, m, found, rfl, stored, has⟩
    have known := agree.states id (Table.mem_keys_of_get? stored) n.type state isState
    refine ⟨state.className, state.symbol, known.symbol, ?_, ?_⟩
    · rw [has, m.members_of_state has]
    · rw [m.members_of_state has]
      exact lead.classServed (Graph.keyed_trim g full) isState _

/-- An oscillator; those that are given a phase keep it. -/
def oscillator (id : String) (args : Table Json.Value) : Node :=
  { Node.bare id "osc" with args, isPullingSignal := true }

/-- Two oscillators with a phase and one without. -/
def oscillators : Graph :=
  [oscillator "lead" (.ofList [("phase", .null)]), oscillator "mute" ∅, oscillator "twin" (.ofList [("phase", .null)])].foldl
    Graph.insert Graph.empty

def oscillatorRegistry : Registry :=
  Registry.empty |>.register "osc" {
    state := fun c => .ok (if c.node.args.contains "phase" then [⟨"phase", "Float", "0"⟩] else []) }

/-- The oscillator without phase is accepted beside the others, which share a class. -/
theorem state_layouts_agree_iff_oscillators :
    ∃ result d lead mute twin, compile oscillators oscillatorRegistry {} = .ok result ∧
      d.nodes.get? "lead" = some lead ∧ d.nodes.get? "mute" = some mute ∧ d.nodes.get? "twin" = some twin ∧
      Draft.layout lead.members = Draft.layout twin.members ∧ Draft.layout lead.members ≠ Draft.layout mute.members ∧
      ClassServed (oscillators.trim result.traversal) d result "osc" "n_osc_State" [⟨"phase", "Float", "0"⟩] ∧
      d.statesOf (oscillators.trim result.traversal) "osc" =
        [⟨"lead_STATE", "n_osc_State", [⟨"phase", "Float", "0"⟩]⟩,
         ⟨"twin_STATE", "n_osc_State", [⟨"phase", "Float", "0"⟩]⟩] := by
  have order : (compile oscillators oscillatorRegistry {}).map CompiledProgram.traversal =
      .ok ["lead", "mute", "twin"] := by
    decide +kernel
  have states : (Compilation.run { graph := oscillators, registry := oscillatorRegistry, request := {} }
      .assemble).2.draft.map (fun d => (["lead", "mute", "twin"].map (fun id => (d.nodes.get? id).map NodeDraft.state),
        d.statesOf (oscillators.trim ["lead", "mute", "twin"]) "osc")) =
      some ([some (some ⟨"lead_STATE", "n_osc_State", [⟨"phase", "Float", "0"⟩]⟩), some none,
          some (some ⟨"twin_STATE", "n_osc_State", [⟨"phase", "Float", "0"⟩]⟩)],
        [⟨"lead_STATE", "n_osc_State", [⟨"phase", "Float", "0"⟩]⟩,
         ⟨"twin_STATE", "n_osc_State", [⟨"phase", "Float", "0"⟩]⟩]) := by
    decide +kernel
  have types : ∀ id ∈ ["lead", "mute", "twin"],
      ((oscillators.trim ["lead", "mute", "twin"]).get? id).map Node.type = some "osc" := by
    decide +kernel
  cases compiled : compile oscillators oscillatorRegistry {} with
  | error e =>
    rw [compiled] at order
    cases order
  | ok result =>
    rw [compiled] at order
    have traversal : result.traversal = ["lead", "mute", "twin"] := Except.ok.inj order
    obtain ⟨d, draft, _, _, agree, served⟩ := state_layouts_agree_iff compiled
    rw [traversal] at agree served
    rw [draft] at states
    have known := Option.some.inj states
    simp only [List.map_cons, List.map_nil, Prod.mk.injEq, List.cons.injEq, and_true] at known
    obtain ⟨⟨leadState, muteState, twinState⟩, all⟩ := known
    obtain ⟨lead, leadStored, leadHas⟩ := Option.map_eq_some_iff.mp leadState
    obtain ⟨mute, muteStored, muteHas⟩ := Option.map_eq_some_iff.mp muteState
    obtain ⟨twin, twinStored, twinHas⟩ := Option.map_eq_some_iff.mp twinState
    obtain ⟨x, leadFound, leadType⟩ := Option.map_eq_some_iff.mp (types "lead" (by decide))
    obtain ⟨y, muteFound, muteType⟩ := Option.map_eq_some_iff.mp (types "mute" (by decide))
    obtain ⟨z, twinFound, twinType⟩ := Option.map_eq_some_iff.mp (types "twin" (by decide))
    have leadMembers : lead.members = [⟨"phase", "Float", "0"⟩] := lead.members_of_state leadHas
    have twinMembers : twin.members = [⟨"phase", "Float", "0"⟩] := twin.members_of_state twinHas
    have muteMembers : mute.members = [] := by simp [NodeDraft.members, muteHas]
    have alike := agree "lead" "twin" x z lead twin leadFound twinFound (leadType.trans twinType.symm) leadStored twinStored
    have unlike := agree "lead" "mute" x y lead mute leadFound muteFound (leadType.trans muteType.symm) leadStored muteStored
    obtain ⟨name, symbol, _, has, isServed⟩ := served "lead" x lead leadFound leadStored (by simp [leadMembers])
    rw [leadMembers, leadType] at isServed
    rw [leadMembers, leadHas] at has
    cases has
    refine ⟨result, d, lead, mute, twin, rfl, leadStored, muteStored, twinStored, ?_, ?_, ?_, ?_⟩
    · exact alike.mpr (by simp [leadMembers, twinMembers])
    · exact fun same => absurd (unlike.mp same) (by simp [leadMembers, muteMembers])
    · rw [traversal]
      exact isServed
    · rw [traversal]
      exact all

end DspPatch
