import DspPatch.Program
import DspPatch.Proofs.Draft.Portlets
import DspPatch.Proofs.NormalForms

/-!
Assembling. The program of a finished draft can always be put together if the groups and the inlets that cold groups feed
belong to nodes of the draft, and if the two symbols of shared code that the engine uses have been given. Pushing keeps
whatever is not code and makes none of it, so the functions of a program are known in order; those of all receivers, of all
cold groups and of all senders with several callees are among them. Whoever passes a message on does so with one call a
line (`Draft.calls_callLines`).
-/
namespace DspPatch

/-- The code is nothing but calls of the functions with the message at hand, in order, one a line. -/
def Sequence.Calls (s : Sequence) (functions : List String) : Prop :=
  ∃ text, s.content = [.code text] ∧ text.toList.splitOn '\n' = functions.map (fun f => (f ++ "(m)").toList)

namespace Text
variable {name : String}

theorem toList_call (name : String) : (name ++ "(m)").toList = name.toList ++ ['(', 'm', ')'] := by
  rw [String.toList_append]
  rfl

theorem newline_not_mem_call (named : isNamePart name = true) : '\n' ∉ (name ++ "(m)").toList := by
  rw [toList_call, List.mem_append, not_or]
  exact ⟨(solid_of_isNamePart named).1, by decide⟩

theorem normalLine_call (named : isNamePart name = true) : NormalLine (name ++ "(m)").toList := by
  obtain ⟨nonempty, letters⟩ := isNamePart_iff.mp named
  refine ⟨by simp, fun c first => ?_, fun c last => ?_⟩
  · rw [toList_call, List.head?_append_of_ne_nil _ nonempty] at first
    exact isBlank_of_isNameChar (letters c (List.mem_of_mem_head? first))
  · rw [toList_call, List.getLast?_append] at last
    cases last
    decide

end Text

/-- Functions with names are called as they are listed. Trimming does not touch the lines, and a line feed is in no name. -/
theorem Draft.calls_callLines {functions : List String} (filled : functions ≠ [])
    (named : ∀ f ∈ functions, Text.isNamePart f = true) : (callLines functions).Calls functions := by
  unfold callLines
  generalize isText : "\n".intercalate (functions.map (· ++ "(m)")) = text
  have spelled : text.toList = ['\n'].intercalate (functions.map (fun f => (f ++ "(m)").toList)) := by
    rw [← isText, String.toList_intercalate, List.map_map]
    rfl
  have lines : text.toList.splitOn '\n' = functions.map (fun f => (f ++ "(m)").toList) := by
    rw [spelled]
    refine List.splitOn_intercalate '\n' (List.forall_mem_map.mpr (fun f member => ?_)) (mt List.map_eq_nil_iff.mp filled)
    exact Text.newline_not_mem_call (named f member)
  have normal : ∀ line ∈ text.toList.splitOn '\n', Text.NormalLine line := by
    rw [lines]
    exact List.forall_mem_map.mpr (fun f member => Text.normalLine_call (named f member))
  have nonempty : text ≠ "" := by
    intro empty
    exact (normal [] (by rw [empty]; decide)).nonempty rfl
  have same : Text.normalCode text = text := Text.NormalCode.normalCode_eq ⟨nonempty, normal⟩
  refine ⟨text, ?_, lines⟩
  rw [Sequence.ofCode, Sequence.pushCode_of_code (same.symm ▸ nonempty), same]
  rfl

namespace Element

/-- The element itself unless it is code. -/
def structured? : Element → Option Element
  | .code _ => none
  | element => some element

theorem structured?_eq_self (element : Element) (plain : ∀ text, element ≠ .code text) :
    element.structured? = some element := by
  cases element with
  | code text => exact absurd rfl (plain text)
  | _ => rfl

theorem eq_of_structured? {element other : Element} (picked : element.structured? = some other) : element = other := by
  cases element with
  | code => cases picked
  | _ => exact Option.some.inj picked

end Element

namespace Sequence
section Picked
variable {α : Type} {pick : Element → Option α} (plain : ∀ text, pick (.code text) = none)
include plain

theorem filterMap_pushCode (s : Sequence) (text : String) :
    (s.pushCode text).content.filterMap pick = s.content.filterMap pick := by
  unfold pushCode
  dsimp only
  split
  next => rfl
  next =>
    show (appendCode s.content _).filterMap _ = s.content.filterMap _
    unfold appendCode
    split
    next last ends =>
      conv_rhs => rw [← List.dropLast_append_getLast? _ ends]
      simp [List.filterMap_append, plain]
    next => simp [List.filterMap_append, plain]

theorem filterMap_push (s : Sequence) (element : Element) :
    (s.push element).content.filterMap pick = s.content.filterMap pick ++ (pick element).toList := by
  have appended : (s.content ++ [element]).filterMap pick = s.content.filterMap pick ++ (pick element).toList := by
    rw [List.filterMap_append, List.filterMap_cons, List.filterMap_nil]
    cases pick element <;> rfl
  cases element with
  | code text => rw [push, filterMap_pushCode plain, plain, Option.toList_none, List.append_nil]
  | _ => exact appended

theorem filterMap_pushAll (s : Sequence) (elements : List Element) :
    (s.pushAll elements).content.filterMap pick = s.content.filterMap pick ++ elements.filterMap pick := by
  induction elements generalizing s with
  | nil => simp [pushAll]
  | cons first rest ih =>
    have later := ih (s.push first)
    rw [filterMap_push plain, List.append_assoc] at later
    show ((s.push first).pushAll rest).content.filterMap pick = _
    rw [later, List.filterMap_cons]
    cases pick first with
    | none => rfl
    | some f => rfl

/-- Whatever is picked from a sequence, but for code, comes from the elements that were pushed, and in their order. -/
theorem filterMap_ofElements (elements : List Element) :
    (ofElements elements).content.filterMap pick = elements.filterMap pick :=
  filterMap_pushAll plain empty elements

end Picked

theorem mem_pushAll {element : Element} (plain : ∀ text, element ≠ .code text) {s : Sequence} {elements : List Element}
    (member : element ∈ s.content ∨ element ∈ elements) : element ∈ (s.pushAll elements).content := by
  have picked : element.structured? = some element := element.structured?_eq_self plain
  have either : element ∈ (s.pushAll elements).content.filterMap Element.structured? := by
    rw [filterMap_pushAll (fun _ => rfl), List.mem_append]
    exact member.imp (fun inside => List.mem_filterMap.mpr ⟨_, inside, picked⟩)
      (fun later => List.mem_filterMap.mpr ⟨_, later, picked⟩)
  obtain ⟨other, inside, isPicked⟩ := List.mem_filterMap.mp either
  exact Element.eq_of_structured? isPicked ▸ inside

end Sequence

/-- The function that an element is. -/
def Element.function? : Element → Option Func
  | .function f => some f
  | _ => none

/-- The functions of a sequence, in order. Those inside of others do not count. -/
def Sequence.functions (s : Sequence) : List Func := s.content.filterMap Element.function?

theorem Sequence.mem_functions_iff {s : Sequence} {f : Func} : f ∈ s.functions ↔ .function f ∈ s.content := by
  rw [functions, List.mem_filterMap]
  constructor
  · rintro ⟨element, member, isFunction⟩
    cases element with
    | function => exact Option.some.inj isFunction ▸ member
    | _ => cases isFunction
  · exact fun member => ⟨_, member, rfl⟩

namespace Draft
variable {d : Draft} {s : Symbols}

/-- What the program is assembled from. -/
structure Assemblable (d : Draft) (s : Symbols) : Prop where
  finalized : ∀ m ∈ d.nodes.values, m.stage = .finalized
  create : s.at? (.global "msg" "create") ≠ none
  hook : s.at? (.global "commons" "emitFrame") ≠ none
  within : ∀ id ∈ d.partition.members, id ∈ d.nodes.keys
  fed : ∀ c ∈ d.partition.cold, ∀ k ∈ c.sinkConnections, k.sink.node ∈ d.nodes.keys

theorem exists_node {id : String} (member : id ∈ d.nodes.keys) : ∃ m, d.node id = .ok m := by
  obtain ⟨m, stored⟩ := Table.mem_keys_iff.mp member
  exact ⟨m, node_eq_ok_iff.mpr stored⟩

theorem exists_hotBody (assemblable : Assemblable d s) : ∃ body, d.hotBody = .ok body := by
  have each : ∀ id ∈ d.partition.hot.traversal, ∃ elements, d.hotElements id = .ok elements := by
    intro id member
    obtain ⟨m, read⟩ := exists_node (assemblable.within id (List.mem_append_left _ member))
    exact ⟨_, bind_eq_ok_iff.mpr ⟨m, read, rfl⟩⟩
  obtain ⟨elements, made⟩ := exists_mapM_ok each
  exact ⟨_, bind_eq_ok_iff.mpr ⟨elements, made, rfl⟩⟩

theorem exists_coldFunction (assemblable : Assemblable d s) {c : ColdGroup} (listed : c ∈ d.partition.cold) :
    ∃ function, d.coldFunction c = .ok function := by
  have loop : ∀ id ∈ c.group.traversal, ∃ content, (do return ((← d.node id).loop.getD .empty).content) = .ok content := by
    intro id member
    have inside : id ∈ d.partition.members :=
      List.mem_append_right _ (List.mem_flatMap.mpr ⟨c.group, List.mem_map_of_mem listed, member⟩)
    obtain ⟨m, read⟩ := exists_node (assemblable.within id inside)
    exact ⟨_, bind_eq_ok_iff.mpr ⟨m, read, rfl⟩⟩
  have inlet : ∀ e ∈ (c.sinkConnections.map Connection.sink).eraseDups, ∃ elements, d.inletElements e = .ok elements := by
    intro e member
    obtain ⟨k, leaving, rfl⟩ := List.mem_map.mp (List.mem_eraseDups.mp member)
    obtain ⟨m, read⟩ := exists_node (assemblable.fed c listed k leaving)
    exact ⟨_, bind_eq_ok_iff.mpr ⟨m, read, rfl⟩⟩
  obtain ⟨loops, loopsMade⟩ := exists_mapM_ok loop
  obtain ⟨inlets, inletsMade⟩ := exists_mapM_ok inlet
  exact ⟨_, bind_eq_ok_iff.mpr ⟨loops, loopsMade, bind_eq_ok_iff.mpr ⟨inlets, inletsMade, rfl⟩⟩⟩

theorem exists_program (assemblable : Assemblable d s) : ∃ program, d.program s = .ok program := by
  obtain ⟨create, createRead⟩ := Option.ne_none_iff_exists'.mp assemblable.create
  obtain ⟨hook, hookRead⟩ := Option.ne_none_iff_exists'.mp assemblable.hook
  obtain ⟨body, bodyMade⟩ := exists_hotBody assemblable
  obtain ⟨cold, coldMade⟩ := exists_mapM_ok (fun c listed => exists_coldFunction assemblable listed)
  have globals : ∃ elements, engineGlobals s = .ok elements :=
    ⟨_, bind_eq_ok_iff.mpr ⟨create, Symbols.global_eq_ok_iff.mpr createRead, rfl⟩⟩
  have loop : ∃ loop, d.frameLoop s = .ok loop :=
    ⟨_, bind_eq_ok_iff.mpr ⟨hook, Symbols.global_eq_ok_iff.mpr hookRead, bind_eq_ok_iff.mpr ⟨body, bodyMade, rfl⟩⟩⟩
  obtain ⟨elements, globalsMade⟩ := globals
  obtain ⟨loop, loopMade⟩ := loop
  exact ⟨_, then_eq_ok_iff.mpr ⟨expectStage_eq_ok_iff.mpr assemblable.finalized,
    bind_eq_ok_iff.mpr ⟨elements, globalsMade, bind_eq_ok_iff.mpr ⟨loop, loopMade,
      bind_eq_ok_iff.mpr ⟨cold, coldMade, rfl⟩⟩⟩⟩⟩

/-- The functions that come with shared code, with types and with nodes. -/
def codeFunctions (d : Draft) : List Func :=
  (d.shared.code.content ++ d.types.values.flatMap typeElements ++ d.nodes.values.flatMap receiverElements ++
    d.nodes.values.flatMap senderElements ++ d.nodes.values.flatMap initializationElements).filterMap Element.function?

/-- The function that a caller of the host is. -/
def callerFunction (c : InletCaller) : Func := messageFunction c.symbol (callLines (c.receiver :: c.coldTrigger.toList))

/-- What is picked from a program, but for code, variables and loops. -/
theorem filterMap_program {α : Type} (pick : Element → Option α) (plain : ∀ text, pick (.code text) = none)
    (unstored : ∀ v, pick (.variable v) = none) (loops : ∀ loop, pick (.frameLoop loop) = none) {program : Sequence}
    (assembled : d.program s = .ok program) :
    ∃ globals cold, engineGlobals s = .ok globals ∧
      List.Forall₂ (fun (c : ColdGroup) f => ∃ body, f = messageFunction c.function body) d.partition.cold cold ∧
      program.content.filterMap pick = (globals ++ d.shared.code.content ++ d.types.values.flatMap typeElements ++
        d.nodes.values.flatMap receiverElements ++ d.nodes.values.flatMap senderElements ++
        d.nodes.values.flatMap stateElements ++ d.nodes.values.flatMap initializationElements ++
        d.inletCallers.map callerElement ++ cold.map Element.function).filterMap pick := by
  obtain ⟨_, assembled⟩ := then_eq_ok_iff.mp assembled
  obtain ⟨globals, globalsMade, assembled⟩ := bind_eq_ok_iff.mp assembled
  obtain ⟨loop, _, assembled⟩ := bind_eq_ok_iff.mp assembled
  obtain ⟨cold, coldMade, assembled⟩ := bind_eq_ok_iff.mp assembled
  cases assembled
  refine ⟨globals, cold, globalsMade, (mapM_eq_ok_iff.mp coldMade).imp (fun c f made => ?_), ?_⟩
  · obtain ⟨loops, _, made⟩ := bind_eq_ok_iff.mp made
    obtain ⟨inlets, _, made⟩ := bind_eq_ok_iff.mp made
    cases made
    exact ⟨_, rfl⟩
  · have outlets : (d.nodes.values.flatMap outletElements).filterMap pick = [] := by
      refine List.filterMap_eq_nil_iff.mpr (fun element member => ?_)
      obtain ⟨n, _, isOutlet⟩ := List.mem_flatMap.mp member
      obtain ⟨_, _, rfl⟩ := List.mem_map.mp isOutlet
      exact unstored _
    have starts : (d.partition.cold.map (fun c => Element.code s!"{c.function}({Engine.emptyMessage})")).filterMap
        pick = [] := by
      simp [plain]
    have block : [Element.frameLoop loop].filterMap pick = [] := by simp [loops]
    rw [Sequence.filterMap_ofElements plain]
    simp only [List.filterMap_append, outlets, starts, block, List.append_nil]

/-- States are constants. -/
theorem filterMap_stateElements {α : Type} (pick : Element → Option α) (constants : ∀ v, pick (.constant v) = none) :
    (d.nodes.values.flatMap stateElements).filterMap pick = [] := by
  refine List.filterMap_eq_nil_iff.mpr (fun element member => ?_)
  obtain ⟨n, _, isState⟩ := List.mem_flatMap.mp member
  obtain ⟨_, _, rfl⟩ := Option.map_eq_some_iff.mp (Option.mem_toList.mp isState)
  exact constants _

/-- Besides those that come with the code, the functions of a program are that of the engine, those that the host calls
    and those of the cold groups. -/
theorem functions_program {program : Sequence} (assembled : d.program s = .ok program) :
    ∃ cold, List.Forall₂ (fun (c : ColdGroup) f => ∃ body, f = messageFunction c.function body) d.partition.cold cold ∧
      program.functions = messageFunction Engine.nullReceiver .empty :: d.codeFunctions ++
        d.inletCallers.map callerFunction ++ cold := by
  obtain ⟨globals, cold, globalsMade, groups, picked⟩ :=
    filterMap_program Element.function? (fun _ => rfl) (fun _ => rfl) (fun _ => rfl) assembled
  refine ⟨cold, groups, picked.trans ?_⟩
  obtain ⟨create, _, globalsMade⟩ := bind_eq_ok_iff.mp globalsMade
  cases globalsMade
  have callers : (d.inletCallers.map callerElement).filterMap Element.function? = d.inletCallers.map callerFunction := by
    rw [List.filterMap_map, ← List.filterMap_eq_map]
    rfl
  have functions : (cold.map Element.function).filterMap Element.function? = cold := by
    rw [List.filterMap_map]
    exact List.filterMap_some
  simp only [codeFunctions, List.filterMap_append, filterMap_stateElements Element.function? (fun _ => rfl), callers, functions,
    List.append_nil]
  simp [List.filterMap_cons, Element.function?]

/-- The functions for messages that a program has. -/
structure FunctionsOf (d : Draft) (program : Sequence) : Prop where
  receivers : ∀ m ∈ d.nodes.values, ∀ f ∈ m.receivers.values, .function f ∈ program.content
  senders : ∀ m ∈ d.nodes.values, ∀ sender ∈ m.senders.values, sender.needsFunction = true →
    .function (messageFunction sender.symbol (callLines sender.callees)) ∈ program.content
  cold : ∀ c ∈ d.partition.cold, ∃ body, .function (messageFunction c.function body) ∈ program.content

theorem functionsOf_program {program : Sequence} (assembled : d.program s = .ok program) : FunctionsOf d program := by
  obtain ⟨cold, groups, functions⟩ := functions_program assembled
  have code : ∀ f ∈ d.codeFunctions, .function f ∈ program.content := by
    intro f member
    rw [← Sequence.mem_functions_iff, functions]
    simp only [List.mem_append, List.mem_cons, member, true_or, or_true]
  refine ⟨fun m node f member => code _ ?_, fun m node sender member needed => code _ ?_, fun c listed => ?_⟩
  · have pushed : .function f ∈ d.nodes.values.flatMap receiverElements :=
      List.mem_flatMap.mpr ⟨m, node, List.mem_map_of_mem member⟩
    refine List.mem_filterMap.mpr ⟨.function f, ?_, rfl⟩
    simp only [List.mem_append, pushed, true_or, or_true]
  · have pushed : .function (messageFunction sender.symbol (callLines sender.callees)) ∈
        d.nodes.values.flatMap senderElements := by
      refine List.mem_flatMap.mpr ⟨m, node, List.mem_map.mpr ⟨sender, List.mem_filter.mpr ⟨member, needed⟩, rfl⟩⟩
    refine List.mem_filterMap.mpr ⟨.function _, ?_, rfl⟩
    simp only [List.mem_append, pushed, true_or, or_true]
  · obtain ⟨_, member, body, rfl⟩ := exists_right_of_forall₂ groups listed
    refine ⟨body, ?_⟩
    rw [← Sequence.mem_functions_iff, functions]
    exact List.mem_append_right _ member

end Draft
end DspPatch
