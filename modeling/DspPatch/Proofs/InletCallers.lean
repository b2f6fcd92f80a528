import DspPatch.Proofs.Draft.Changes
import DspPatch.Proofs.SharedSymbols
import DspPatch.Proofs.StableSymbols
import DspPatch.Proofs.Unreachable

/-!
The functions through which the host calls inlets. Every inlet that the host asks for has one, which calls the receiver of
the inlet and then the cold group of the node, and its symbol is exported. A function is written and a symbol exported as
often as the inlet is listed. So there is exactly one of each if and only if the inlet is listed once and nobody else has
a symbol that reads the same.
-/
namespace DspPatch

/-- The inlets that the host asks to call, each as often as it is listed. -/
def SettingsRequest.called (request : SettingsRequest) : List (String × String) :=
  (request.inletCallers.getD ∅).entries.flatMap (fun (id, inlets) => inlets.map (fun inlet => (id, inlet)))

/-- The symbol of the function through which the host calls an inlet. -/
def callerSymbol (place : String × String) : String := s!"inletCallers_{place.1}_{place.2}"

/-- The inlet is listed once, and no other inlet on the list has a symbol that reads the same. -/
def CalledOnce (places : List (String × String)) (place : String × String) : Prop :=
  places.count place = 1 ∧ ∀ other ∈ places, ¬Overlaps place.1 (some place.2) other.1 (some other.2) ∧
    ¬Overlaps other.1 (some other.2) place.1 (some place.2)

/-- The functions of a sequence that have the name. -/
def Sequence.functionsNamed (s : Sequence) (name : String) : List Func :=
  s.functions.filter (fun f => f.name = some name)

/-- How the host calls an inlet. -/
structure InletServed (request : SettingsRequest) (result : CompiledProgram) (d : Draft) (place : String × String) :
    Prop where
  symbol : result.symbols.caller? place.1 place.2 = some (callerSymbol place)
  /-- A function calls the receiver and then the cold group of the node. -/
  function : ∃ receiver body, result.symbols.portlet .rcvs place.1 place.2 = .ok receiver ∧
    body.Calls (receiver :: (d.partition.trigger? place.1).toList) ∧
    Draft.messageFunction (callerSymbol place) body ∈ result.program.functionsNamed (callerSymbol place)
  definedOnce : (result.program.functionsNamed (callerSymbol place)).length = 1 ↔
    CalledOnce request.called place ∧ ∀ f ∈ d.codeFunctions, f.name ≠ some (callerSymbol place)
  exportedOnce : result.exports.count (callerSymbol place) = 1 ↔
    CalledOnce request.called place ∧ callerSymbol place ∉ d.shared.exports

theorem callerSymbol_eq_iff {a b : String × String} :
    callerSymbol a = callerSymbol b ↔
      a = b ∨ Overlaps a.1 (some a.2) b.1 (some b.2) ∨ Overlaps b.1 (some b.2) a.1 (some a.2) := by
  have spelled : ∀ place, callerSymbol place = "inletCallers_" ++ spell place.1 (some place.2) := by
    intro place
    show "inletCallers_" ++ place.1 ++ "_" ++ place.2 = "inletCallers_" ++ (place.1 ++ "_" ++ place.2)
    simp only [String.append_assoc]
  rw [spelled, spelled, String.append_right_inj, spell_eq_iff, Option.some.injEq, ← Prod.ext_iff]

theorem not_overlaps_self (head : String) (own : Option String) : ¬Overlaps head own head own := by
  rintro ⟨rest, same, _⟩
  have lengths := congrArg String.length same
  rw [String.length_append, String.length_append, show "_".length = 1 from rfl] at lengths
  omega

/-- A name that begins with another letter is the symbol of no caller. -/
theorem callerSymbol_ne {name : String} (place : String × String) (other : name.toList.head? ≠ some 'i') :
    name ≠ callerSymbol place := by
  rintro rfl
  apply other
  show ("inletCallers_" ++ place.1 ++ "_" ++ place.2).toList.head? = some 'i'
  simp

/-- Of the images of a list, that of a member occurs once if the member does and no other has the same image. -/
theorem count_map_eq_one_iff {α β : Type} [BEq α] [LawfulBEq α] [BEq β] [LawfulBEq β] (f : α → β) {items : List α}
    {a : α} (member : a ∈ items) :
    (items.map f).count (f a) = 1 ↔ items.count a = 1 ∧ ∀ b ∈ items, f b = f a → b = a := by
  rw [List.count_eq_countP, List.countP_map]
  constructor
  · intro once
    obtain ⟨c, only⟩ := List.length_eq_one_iff.mp (List.countP_eq_length_filter ▸ once)
    have same : ∀ b ∈ items, f b = f a → b = c := by
      intro b listed image
      have kept : b ∈ items.filter ((fun x => x == f a) ∘ f) := List.mem_filter.mpr ⟨listed, by simpa using image⟩
      rw [only] at kept
      exact List.mem_singleton.mp kept
    have least : 1 ≤ items.count a := List.one_le_count_iff.mpr member
    have most : items.count a ≤ items.countP ((fun x => x == f a) ∘ f) := by
      rw [List.count_eq_countP]
      refine List.countP_mono_left (fun b _ isSame => ?_)
      simp_all
    refine ⟨by omega, fun b listed image => ?_⟩
    rw [same b listed image, same a member rfl]
  · rintro ⟨once, alone⟩
    rw [← once, List.count_eq_countP]
    refine List.countP_congr (fun b listed => ?_)
    simp only [Function.comp_apply, beq_iff_eq]
    exact ⟨alone b listed, fun same => same ▸ rfl⟩

theorem count_callerSymbol_eq_one_iff {places : List (String × String)} {place : String × String}
    (member : place ∈ places) :
    (places.map callerSymbol).count (callerSymbol place) = 1 ↔ CalledOnce places place := by
  rw [count_map_eq_one_iff callerSymbol member, CalledOnce]
  refine and_congr_right fun _ => forall_congr' fun other => imp_congr_right fun _ => ?_
  rw [callerSymbol_eq_iff, ← not_or]
  constructor
  · intro alone overlap
    have same : other = place := alone (.inr overlap.symm)
    subst same
    exact overlap.elim (not_overlaps_self _ _) (not_overlaps_self _ _)
  · rintro alone (same | overlap)
    · exact same
    · exact absurd overlap.symm alone

namespace Draft
variable {d : Draft} {s : Symbols} {input : BuildInput}

theorem Change.exportsOnce {g : Graph} {w v : Workspace} (change : Change g w v) (once : w.draft.shared.exports.Nodup) :
    v.draft.shared.exports.Nodup := by
  cases change with
  | shared _ _ kept => exact kept once
  | _ => exact once

/-- Shared code exports nothing twice, whatever a step changes. -/
theorem Step.exportsOnce (step : Step) {w after : Workspace} (ran : (step.work input).run.run w = (.ok (), after))
    (once : w.draft.shared.exports.Nodup) : after.draft.shared.exports.Nodup := by
  have changes : Changes input.graph w after := (step.changes input w).ends.of_run ran
  clear ran
  induction changes with
  | refl => exact once
  | tail _ change ih => exact change.exportsOnce ih

theorem CallerOf.symbol_eq {p : Partition} {place : String × String} {caller : InletCaller}
    (isCaller : CallerOf s p place caller) (shaped : s.Shaped) : caller.symbol = callerSymbol place :=
  shaped _ _ isCaller.2.2.2.2

/-- The functions under the symbol of a caller are its own, those of callers that share the symbol, and code. -/
theorem length_functionsNamed {program : Sequence} (assembled : d.program s = .ok program)
    (numbered : Numbered s d.partition.cold) (shaped : s.Shaped) (place : String × String) :
    (program.functionsNamed (callerSymbol place)).length =
      (d.codeFunctions.filter (fun f => f.name = some (callerSymbol place))).length +
        (d.inletCallers.map InletCaller.symbol).count (callerSymbol place) := by
  obtain ⟨cold, named, functions⟩ := functions_program assembled
  have engine : Engine.nullReceiver ≠ callerSymbol place := callerSymbol_ne place (by decide)
  have groups : cold.filter (fun f => f.name = some (callerSymbol place)) = [] := by
    refine List.filter_eq_nil_iff.mpr (fun f member => ?_)
    obtain ⟨c, listed, body, rfl⟩ := exists_left_of_forall₂ named member
    have other : c.function ≠ callerSymbol place := by
      rw [numbered.function_eq shaped listed]
      exact callerSymbol_ne place (by rw [toList_coldName]; simp)
    simpa [messageFunction, Func.named] using other
  have callers : ((d.inletCallers.map callerFunction).filter (fun f => f.name = some (callerSymbol place))).length =
      (d.inletCallers.map InletCaller.symbol).count (callerSymbol place) := by
    rw [← List.countP_eq_length_filter, List.count_eq_countP, List.countP_map, List.countP_map]
    refine List.countP_congr (fun c _ => ?_)
    simp [callerFunction, messageFunction, Func.named]
  have null : (messageFunction Engine.nullReceiver .empty).name ≠ some (callerSymbol place) := by
    simpa [messageFunction, Func.named] using engine
  rw [Sequence.functionsNamed, functions, List.filter_append, List.filter_append, groups,
    List.filter_cons_of_neg (by simpa using null), List.append_nil, List.length_append, callers]

end Draft

namespace Passes
variable {input : BuildInput} {full : List String} {passes : Passes input full} {p : Partition}

theorem Lead.exportsOnce (lead : passes.Lead p) : passes.finished.draft.shared.exports.Nodup := by
  have fresh : passes.started.shared.exports.Nodup := by
    obtain ⟨nodes, _, same⟩ := bind_eq_ok_iff.mp passes.starts
    rw [← Except.ok.inj same]
    exact .nil
  have resolved := Draft.Step.resolvePortlets.exportsOnce passes.resolves fresh
  have collected := Draft.Step.collectDependencies.exportsOnce passes.collects resolved
  have divided := Draft.Step.partitionDsp.exportsOnce passes.divides collected
  have spoken := Draft.Step.synthesizeMessages.exportsOnce passes.speaks divided
  obtain ⟨_, _, same⟩ := lead.finishing.keeps.rest
  rw [same]
  exact spoken

/-- The callers of a draft have the symbols of the inlets that they call, in order. -/
theorem Lead.callerSymbols (lead : passes.Lead p) {places : List (String × String)}
    (callers : List.Forall₂ (Draft.CallerOf passes.finished.symbols passes.finished.draft.partition) places
      passes.finished.draft.inletCallers) :
    passes.finished.draft.inletCallers.map InletCaller.symbol = places.map callerSymbol := by
  refine (map_eq_map_of_forall₂ callerSymbol InletCaller.symbol (callers.imp ?_)).symm
  exact fun place caller isCaller => (isCaller.symbol_eq lead.shaped).symm

theorem Lead.exports_eq (lead : passes.Lead p) {places : List (String × String)}
    (callers : List.Forall₂ (Draft.CallerOf passes.finished.symbols passes.finished.draft.partition) places
      passes.finished.draft.inletCallers) (provenance : Provenance) :
    (passes.result provenance).exports = passes.finished.draft.shared.exports ++ places.map callerSymbol := by
  rw [← lead.callerSymbols callers]
  rfl

theorem Lead.inletServed (lead : passes.Lead p) {request : SettingsRequest}
    (callers : List.Forall₂ (Draft.CallerOf passes.finished.symbols passes.finished.draft.partition) request.called
      passes.finished.draft.inletCallers) {place : String × String} (member : place ∈ request.called)
    (provenance : Provenance) : InletServed request (passes.result provenance) passes.finished.draft place := by
  obtain ⟨caller, listed, isCaller⟩ := exists_right_of_forall₂ callers member
  have symbol := isCaller.symbol_eq lead.shaped
  obtain ⟨_, _, receiver, trigger, given⟩ := isCaller
  have once := count_callerSymbol_eq_one_iff member
  have least : 1 ≤ (request.called.map callerSymbol).count (callerSymbol place) :=
    List.one_le_count_iff.mpr (List.mem_map_of_mem member)
  have named : ∀ callee ∈ caller.receiver :: (passes.finished.draft.partition.trigger? place.1).toList,
      Text.isNamePart callee = true := by
    refine List.forall_mem_cons.mpr ⟨passes.allNames.symbols.symbols _ _ receiver, fun callee runs => ?_⟩
    exact passes.isNamePart_trigger (Option.mem_toList.mp runs)
  refine ⟨symbol ▸ given, ⟨caller.receiver, _, Symbols.portlet_eq_ok_iff.mpr receiver,
    Draft.calls_callLines (List.cons_ne_nil _ _) named, ?_⟩, ?_, ?_⟩
  · obtain ⟨cold, _, functions⟩ := Draft.functions_program passes.assembles
    have isFunction : Draft.callerFunction caller ∈ passes.program.functions := by
      rw [functions]
      simp only [List.mem_append, List.mem_map_of_mem listed, true_or, or_true]
    rw [Draft.callerFunction, symbol, trigger] at isFunction
    exact List.mem_filter.mpr ⟨isFunction, by simp [Draft.messageFunction, Func.named]⟩
  · have length := Draft.length_functionsNamed passes.assembles lead.numbered lead.shaped place
    have none : (passes.finished.draft.codeFunctions.filter (fun f => f.name = some (callerSymbol place))).length = 0 ↔
        ∀ f ∈ passes.finished.draft.codeFunctions, f.name ≠ some (callerSymbol place) := by
      simp [List.filter_eq_nil_iff]
    rw [lead.callerSymbols callers] at length
    rw [← once, ← none, show (passes.result provenance).program = passes.program from rfl, length]
    omega
  · rw [lead.exports_eq callers, List.count_append, ← once, ← List.count_eq_zero]
    omega

end Passes

variable {g : Graph} {r : Registry}

/-- Every inlet that the host asks for is served. It has one function and is exported once if and only if it is listed
    once and no other caller, function or export has its symbol. -/
theorem inletCallers_once_iff {request : SettingsRequest} {result : CompiledProgram}
    (accepted : g.checkIntegrity = .ok ()) (compiled : compile g r request = .ok result) :
    ∃ d, (Compilation.run { graph := g, registry := r, request } .assemble).2.draft = some d ∧
      d.shared.exports.Nodup ∧ result.exports = d.shared.exports ++ request.called.map callerSymbol ∧
      (∀ place ∈ request.called, InletServed request result d place) ∧
      (result.exports.Nodup ↔ ∀ place ∈ request.called,
        CalledOnce request.called place ∧ callerSymbol place ∉ d.shared.exports) := by
  have mirrored := Graph.checkIntegrity_eq_ok_iff.mp accepted
  obtain ⟨s, full, checked, traversal, passes, rfl, draft⟩ := exists_passes compiled
  obtain ⟨p, lead⟩ := passes.exists_lead (Graph.keyed_trim g full)
  obtain ⟨d, _, sameDraft, _, _, _, completed⟩ := (compile_outcome g r request).of_eq_ok compiled
  cases draft.symm.trans sameDraft
  -- The nodes that the host calls are roots of the traversal, so none of them is passed over.
  have called : Draft.called ⟨g.trim full, r, s⟩ passes.finished.draft = request.called := by
    have validated := (checkedSettings_eq_ok_iff.mp checked).1
    rw [Draft.called, SettingsRequest.called, ← request.validate_yields.of_eq_ok validated, List.filter_eq_self.mpr]
    intro entry member
    rw [Table.contains_iff, lead.mem_keys_iff]
    exact callers_subset_fullTraversal mirrored traversal (List.mem_map_of_mem member)
  have callers : List.Forall₂ (Draft.CallerOf passes.finished.symbols passes.finished.draft.partition) request.called
      passes.finished.draft.inletCallers := by
    rw [← called]
    exact completed.callers
  have exports := lead.exports_eq callers (.of g r)
  refine ⟨_, draft, lead.exportsOnce, exports, fun place member => lead.inletServed callers member _, ?_⟩
  have once : (request.called.map callerSymbol).Nodup ↔ ∀ place ∈ request.called, CalledOnce request.called place := by
    rw [List.nodup_iff_count_eq_one, List.forall_mem_map]
    exact forall₂_congr fun place member => count_callerSymbol_eq_one_iff member
  have apart : (∀ a ∈ passes.finished.draft.shared.exports, ∀ b ∈ request.called.map callerSymbol, a ≠ b) ↔
      ∀ place ∈ request.called, callerSymbol place ∉ passes.finished.draft.shared.exports := by
    constructor
    · intro different place member isShared
      exact different _ isShared _ (List.mem_map_of_mem member) rfl
    · rintro unshared a isShared b isCaller rfl
      obtain ⟨place, member, rfl⟩ := List.mem_map.mp isCaller
      exact unshared place member isShared
  rw [exports, List.nodup_append, once, apart, ← forall₂_and]
  exact and_iff_right lead.exportsOnce

/-- Two inlets of one node. -/
def mixerPatch : Graph :=
  Graph.empty.insert { Node.bare "mixer" "mixer" with
    inlets := .ofList [("0", ⟨"0", .message⟩), ("1", ⟨"1", .message⟩)] }

def mixerRegistry : Registry :=
  Registry.empty |>.register "mixer" {
    receivers := fun _ => .ok (.ofList [("0", ⟨.ofCode "return", true⟩), ("1", ⟨.ofCode "return", true⟩)]) }

/-- The host lists one of the inlets twice. -/
def mixerRequest : SettingsRequest := { inletCallers := some (.ofList [("mixer", ["0", "1", "0"])]) }

/-- The inlet that is listed twice is exported twice, the other one once. -/
theorem inletCallers_once_iff_mixer :
    ∃ result d, compile mixerPatch mixerRegistry mixerRequest = .ok result ∧
      InletServed mixerRequest result d ("mixer", "0") ∧ InletServed mixerRequest result d ("mixer", "1") ∧
      (result.program.functionsNamed "inletCallers_mixer_0").map (fun f => f.body.lines "") =
        [["mixer_RCVS_0(m)"], ["mixer_RCVS_0(m)"]] ∧
      (result.program.functionsNamed "inletCallers_mixer_1").map (fun f => f.body.lines "") = [["mixer_RCVS_1(m)"]] ∧
      result.exports = ["core_getBitDepth", "inletCallers_mixer_0", "inletCallers_mixer_1", "inletCallers_mixer_0"] ∧
      ¬CalledOnce mixerRequest.called ("mixer", "0") ∧ CalledOnce mixerRequest.called ("mixer", "1") ∧
      ¬result.exports.Nodup := by
  have made : (compile mixerPatch mixerRegistry mixerRequest).map (fun result =>
      ((result.program.functionsNamed "inletCallers_mixer_0").map (fun f => f.body.lines ""),
        (result.program.functionsNamed "inletCallers_mixer_1").map (fun f => f.body.lines ""), result.exports)) =
      .ok ([["mixer_RCVS_0(m)"], ["mixer_RCVS_0(m)"]], [["mixer_RCVS_1(m)"]],
        ["core_getBitDepth", "inletCallers_mixer_0", "inletCallers_mixer_1", "inletCallers_mixer_0"]) := by
    decide +kernel
  obtain ⟨result, compiled, known⟩ := map_eq_ok_iff.mp made
  simp only [Prod.mk.injEq] at known
  obtain ⟨twoFunctions, oneFunction, exports⟩ := known
  obtain ⟨d, _, _, _, served, unique⟩ := inletCallers_once_iff (by decide +kernel) compiled
  have first := served ("mixer", "0") (by decide +kernel)
  have second := served ("mixer", "1") (by decide +kernel)
  have twice : ¬CalledOnce mixerRequest.called ("mixer", "0") := fun once => absurd once.1 (by decide +kernel)
  have single : (result.program.functionsNamed "inletCallers_mixer_1").length = 1 := by
    have lengths := congrArg List.length oneFunction
    rwa [List.length_map] at lengths
  have once : CalledOnce mixerRequest.called ("mixer", "1") := (second.definedOnce.mp single).1
  refine ⟨result, d, compiled, first, second, twoFunctions, oneFunction, exports, twice, once, fun nodup => ?_⟩
  exact twice (unique.mp nodup ("mixer", "0") (by decide +kernel)).1

end DspPatch
