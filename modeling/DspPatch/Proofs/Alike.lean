import DspPatch.Proofs.Agreement
import DspPatch.Proofs.CodeShape
import DspPatch.Proofs.Draft.Triggers
import DspPatch.Proofs.SymbolRequests

/-!
What two compilations that differ in their names have in common. `Symbols.Alike` and `Draft.Alike` relate what is held at the
same places: symbols of nodes may be different names, and all the rest of the index is the same; drafts have the same
partition and the same types, and their nodes the same portlets, the same numbers of callees and the same marks. Alike
symbols give alike symbols, and what a placeholder stands for in alike contexts fits into the same code.
-/
namespace DspPatch

/-- Both are names. -/
def BothNames (a b : String) : Prop := Text.isNamePart a = true ∧ Text.isNamePart b = true

/-- The name of the function of some cold group. -/
def IsColdName (name : String) : Prop := ∃ group : Nat, name = s!"COLD_{toString group}"

/-- Who is called in the same place: the same function, or two of which neither is that of a cold group. -/
def SameCallee (a b : String) : Prop := a = b ∨ BothNames a b ∧ ¬IsColdName a ∧ ¬IsColdName b

/-- The function of the same cold group. -/
def SameGroup (a b : String) : Prop := a = b ∧ IsColdName a

/-- The expressions of the same inlet. -/
def BothSolid (a b : String) : Prop := Text.Solid a ∧ Text.Solid b

theorem BothNames.solid {a b : String} (named : BothNames a b) : BothSolid a b :=
  ⟨Text.solid_of_isNamePart named.1, Text.solid_of_isNamePart named.2⟩

theorem SameCallee.fits {a b : String} (same : SameCallee a b) : Text.Fits a b :=
  same.imp_right (fun names => names.1.solid)

structure Namespace.Alike (rel : String → String → Prop) (a b : Namespace) : Prop where
  label : a.label = b.label
  entries : a.entries.Related rel b.entries

/-- Symbols of the same portlet. -/
def PortletSlot.Alike : PortletSlot → String → String → Prop
  | outs => BothNames
  | snds => SameCallee
  | rcvs => SameCallee

theorem PortletSlot.Alike.fits {slot : PortletSlot} {a b : String} (alike : slot.Alike a b) : Text.Fits a b := by
  cases slot with
  | outs => exact .inr (BothNames.solid alike)
  | snds => exact SameCallee.fits alike
  | rcvs => exact SameCallee.fits alike

structure NodeSymbols.Alike (n m : NodeSymbols) : Prop where
  stem : BothNames n.stem m.stem
  state : BothNames n.state m.state
  slot : ∀ slot : PortletSlot, (n.slot slot).Alike slot.Alike (m.slot slot)

/-- Nothing but the symbols of nodes differs, and the functions of cold groups have their names. -/
def Symbols.Alike (s t : Symbols) : Prop :=
  ∃ nodes, t = { s with nodes } ∧ s.nodes.Related NodeSymbols.Alike nodes ∧
    ∀ name ∈ s.coldGroups.entries.values, IsColdName name

structure NodeDraft.Alike (n m : NodeDraft) : Prop where
  stage : n.stage = m.stage
  signalIns : n.signalIns.Related BothSolid m.signalIns
  signalOuts : n.signalOuts.Related BothNames m.signalOuts
  senderPlans : n.senderPlans.Related (List.Forall₂ SameCallee) m.senderPlans
  senders : n.senders.Related (fun a b => a.callees.length = b.callees.length ∧ a.needsFunction = b.needsFunction) m.senders
  loopResolved : n.loopResolved = m.loopResolved
  inlined : n.inlined = m.inlined

structure Draft.Alike (d e : Draft) : Prop where
  nodes : d.nodes.Related NodeDraft.Alike e.nodes
  types : d.types = e.types
  partition : d.partition = e.partition
  cold : ∀ c ∈ d.partition.cold, IsColdName c.function

structure Workspace.Alike (w v : Workspace) : Prop where
  symbols : w.symbols.Alike v.symbols
  draft : w.draft.Alike v.draft

structure NodeContext.Alike (c d : NodeContext) : Prop where
  node : c.node = d.node
  symbols : c.symbols.Alike d.symbols
  signalIns : c.signalIns.Related BothSolid d.signalIns

namespace Namespace.Alike
variable {rel : String → String → Prop} {a b : Namespace}

theorem get (alike : a.Alike rel b) (key : String) : Agree rel (a.get key) (b.get key) := by
  unfold Namespace.get
  rcases alike.entries.get? key with ⟨left, right⟩ | ⟨x, y, left, right, related⟩
  · rw [left, right, alike.label]
    exact .error _
  · rw [left, right]
    exact .ok related

theorem assign (alike : a.Alike rel b) (key : String) {x y : String} (related : rel x y) :
    rel (a.assign key x).1 (b.assign key y).1 ∧ (a.assign key x).2.Alike rel (b.assign key y).2 := by
  unfold Namespace.assign
  rcases alike.entries.get? key with ⟨left, right⟩ | ⟨old, other, left, right, known⟩
  · rw [left, right]
    exact ⟨related, alike.label, alike.entries.insert key related⟩
  · rw [left, right]
    exact ⟨known, alike⟩

end Namespace.Alike

namespace Symbols
variable {s t : Symbols}

theorem nodeSymbols_alike {n : Node} (named : Text.isNamePart n.id = true) (debug debug' : Bool) :
    (nodeSymbols debug n).Alike (nodeSymbols debug' n) := by
  have state (debug : Bool) : Text.isNamePart (stem debug n ++ "_STATE") = true :=
    Text.isNamePart_append (Text.isLetters_of_isNamePart (isNamePart_stem named debug)) (by decide)
  refine ⟨⟨isNamePart_stem named debug, isNamePart_stem named debug'⟩, ⟨state debug, state debug'⟩, fun slot => ?_⟩
  cases slot <;> exact ⟨rfl, .empty⟩

theorem ofGraph_agree (g : Graph) (debug debug' : Bool) : Agree Alike (ofGraph g debug) (ofGraph g debug') := by
  refine Agree.bind (.of_yields (Yields.forM (fun n _ => checkPart_yields n.id))) ?_
  rintro _ _ ⟨_, named⟩
  refine .ok ⟨_, rfl, .ofList ?_, List.forall_mem_nil _⟩
  rw [List.forall₂_map_left_iff, List.forall₂_map_right_iff, List.forall₂_same]
  exact fun n member => ⟨rfl, nodeSymbols_alike (named n member) debug debug'⟩

namespace Alike

theorem node (alike : s.Alike t) (id : String) : Agree NodeSymbols.Alike (s.node id) (t.node id) := by
  obtain ⟨nodes, rfl, related, _⟩ := alike
  unfold Symbols.node
  rcases related.get? id with ⟨left, right⟩ | ⟨n, m, left, right, pair⟩
  · rw [left, right]
    exact .error _
  · rw [left, right]
    exact .ok pair

theorem typeTag_eq (alike : s.Alike t) (type : String) : s.typeTag type = t.typeTag type := by
  obtain ⟨nodes, rfl, _, _⟩ := alike
  rfl

theorem global_eq (alike : s.Alike t) (tag name : String) : s.global tag name = t.global tag name := by
  obtain ⟨nodes, rfl, _, _⟩ := alike
  rfl

theorem portlet (alike : s.Alike t) (slot : PortletSlot) (id portlet : String) :
    Agree slot.Alike (s.portlet slot id portlet) (t.portlet slot id portlet) :=
  (alike.node id).bind (fun _ _ pair => (pair.slot slot).get portlet)

theorem assignPortlet (alike : s.Alike t) (slot : PortletSlot) (id portlet : String) {choose choose' : NodeSymbols → String}
    (chosen : ∀ n m, NodeSymbols.Alike n m → slot.Alike (choose n) (choose' m)) :
    Agree (fun a b => slot.Alike a.1 b.1 ∧ a.2.Alike b.2) (s.assignPortlet slot id portlet choose)
      (t.assignPortlet slot id portlet choose') := by
  refine (alike.node id).bind (fun n m pair => .ok ?_)
  obtain ⟨given, assigned⟩ := (pair.slot slot).assign portlet (chosen n m pair)
  obtain ⟨nodes, rfl, related, cold⟩ := alike
  refine ⟨given, _, rfl, related.insert id ⟨?_, ?_, fun other => ?_⟩, cold⟩
  · simpa using pair.stem
  · simpa using pair.state
  · simp only [slot_withSlot]
    split
    next same => exact same ▸ assigned
    next => exact pair.slot other

theorem attachPortlet (alike : s.Alike t) (slot : PortletSlot) (id portlet : String) :
    Agree (fun a b => slot.Alike a.1 b.1 ∧ a.2.Alike b.2) (s.attachPortlet slot id portlet)
      (t.attachPortlet slot id portlet) := by
  refine Agree.bind (.of_yields (checkPart_yields portlet)) ?_
  rintro _ _ ⟨_, named⟩
  refine alike.assignPortlet slot id portlet (fun n m pair => ?_)
  have names : BothNames s!"{n.stem}_{slot.mark}_{portlet}" s!"{m.stem}_{slot.mark}_{portlet}" :=
    ⟨SymbolRequest.isNamePart_portletSymbol slot pair.stem.1 named,
      SymbolRequest.isNamePart_portletSymbol slot pair.stem.2 named⟩
  have warm (stem : String) : ¬IsColdName s!"{stem}_{slot.mark}_{portlet}" := by
    rintro ⟨group, same⟩
    exact Draft.coldName_ne_portlet group slot stem portlet same.symm
  cases slot with
  | outs => exact names
  | snds => exact .inr ⟨names, warm n.stem, warm m.stem⟩
  | rcvs => exact .inr ⟨names, warm n.stem, warm m.stem⟩

/-! Symbols that do not belong to nodes are the same. -/

theorem attachListener (alike : s.Alike t) (id outlet : String) :
    Agree (fun a b => a.1 = b.1 ∧ a.2.Alike b.2) (s.attachListener id outlet) (t.attachListener id outlet) := by
  obtain ⟨nodes, rfl, related, cold⟩ := alike
  exact Agree.bind (.same rfl) (fun _ _ _ => .bind (.same rfl) (fun _ _ _ => .ok ⟨rfl, nodes, rfl, related, cold⟩))

theorem attachCaller (alike : s.Alike t) (id inlet : String) :
    Agree (fun a b => a.1 = b.1 ∧ a.2.Alike b.2) (s.attachCaller id inlet) (t.attachCaller id inlet) := by
  obtain ⟨nodes, rfl, related, cold⟩ := alike
  exact Agree.bind (.same rfl) (fun _ _ _ => .bind (.same rfl) (fun _ _ _ => .ok ⟨rfl, nodes, rfl, related, cold⟩))

theorem attachGlobal (alike : s.Alike t) (tag name : String) :
    Agree (fun a b => a.1 = b.1 ∧ a.2.Alike b.2) (s.attachGlobal tag name) (t.attachGlobal tag name) := by
  obtain ⟨nodes, rfl, related, cold⟩ := alike
  exact Agree.bind (.same rfl) (fun _ _ _ => .bind (.same rfl) (fun _ _ _ => .ok ⟨rfl, nodes, rfl, related, cold⟩))

theorem attachTypeTag (alike : s.Alike t) (type : String) :
    (s.attachTypeTag type).1 = (t.attachTypeTag type).1 ∧ (s.attachTypeTag type).2.Alike (t.attachTypeTag type).2 := by
  obtain ⟨nodes, rfl, related, cold⟩ := alike
  unfold Symbols.attachTypeTag
  dsimp only
  split
  · exact ⟨rfl, nodes, rfl, related, cold⟩
  · exact ⟨rfl, nodes, rfl, related, cold⟩

theorem attachGlobals (alike : s.Alike t) (names : List (String × String)) :
    (s.attachGlobals names).1 = (t.attachGlobals names).1 ∧ (s.attachGlobals names).2.Alike (t.attachGlobals names).2 := by
  induction names generalizing s t with
  | nil => exact ⟨rfl, alike⟩
  | cons entry rest ih =>
    obtain ⟨tag, name⟩ := entry
    rw [Symbols.attachGlobals, Symbols.attachGlobals]
    have agree := alike.attachGlobal tag name
    revert agree
    generalize s.attachGlobal tag name = given
    generalize t.attachGlobal tag name = given'
    intro agree
    cases agree with
    | error e => exact ⟨rfl, alike⟩
    | ok both => exact ih both.2

theorem attachColdGroup (alike : s.Alike t) (group : Nat) :
    SameGroup (s.attachColdGroup group).1 (t.attachColdGroup group).1 ∧
      (s.attachColdGroup group).2.Alike (t.attachColdGroup group).2 := by
  obtain ⟨nodes, rfl, related, cold⟩ := alike
  have assigns := s.attachColdGroup_assigns group
  have isCold : IsColdName (s.attachColdGroup group).1 := by
    cases known : s.coldGroups.entries.get? (toString group) with
    | some old => exact assigns.known old known ▸ cold old (Table.mem_values_iff.mpr ⟨_, known⟩)
    | none => exact ⟨group, assigns.shaped known⟩
  refine ⟨⟨rfl, isCold⟩, nodes, rfl, related, fun name member => ?_⟩
  obtain ⟨key, stored⟩ := Table.mem_values_iff.mp member
  have read := assigns.read (.coldGroup key)
  rw [show (s.attachColdGroup group).2.at? (.coldGroup key) = some name from stored] at read
  split at read
  · cases read
    exact isCold
  · exact cold name (Table.mem_values_iff.mpr ⟨key, read.symm⟩)

end Alike
end Symbols

namespace NodeContext
variable {c d : NodeContext}

/-- What a placeholder stands for in alike contexts fits into the same code. -/
theorem Alike.lookup (alike : c.Alike d) (scope : String) (key : Option String) :
    Agree Text.Fits (c.lookup scope key) (d.lookup scope key) := by
  obtain ⟨node, symbols, signalIns⟩ := alike
  have portlet (slot : PortletSlot) (key : String) :
      Agree Text.Fits (c.symbols.portlet slot c.node.id key) (d.symbols.portlet slot d.node.id key) := by
    rw [node]
    exact (symbols.portlet slot d.node.id key).mono (fun _ _ _ _ => PortletSlot.Alike.fits)
  unfold NodeContext.lookup
  split
  · unfold NodeContext.state
    rw [node]
    exact (symbols.node d.node.id).bind (fun _ _ pair => .ok (.inr pair.state.solid))
  · split
    · refine Agree.bind (.same rfl) (fun inlet _ same => ?_)
      unfold NodeContext.ins
      rw [node, ← same]
      rcases signalIns.get? inlet with ⟨left, right⟩ | ⟨x, y, left, right, solid⟩
      · rw [left, right]
        exact .error _
      · rw [left, right]
        exact .ok (.inr solid)
    · split
      · exact Agree.bind (.same rfl) (fun inlet _ same => same ▸ portlet .outs inlet)
      · split
        · exact Agree.bind (.same rfl) (fun inlet _ same => same ▸ portlet .snds inlet)
        · split
          · exact Agree.bind (.same rfl) (fun inlet _ same => same ▸ portlet .rcvs inlet)
          · have other {x y : Except CompileError String} (equal : x = y) : Agree Text.Fits x y :=
              (Agree.same equal).mono (fun _ _ _ _ => .inl)
            obtain ⟨nodes, same, _, _⟩ := symbols
            split
            · refine Agree.bind (.same rfl) (fun arg _ same => other ?_)
              rw [NodeContext.arg, NodeContext.arg, node, same]
            · refine other ?_
              rw [same, node]
              rfl

end NodeContext

namespace Draft
variable {d e : Draft}

namespace Alike

theorem node (alike : d.Alike e) (id : String) : Agree NodeDraft.Alike (d.node id) (e.node id) := by
  unfold Draft.node
  rcases alike.nodes.get? id with ⟨left, right⟩ | ⟨n, m, left, right, pair⟩
  · rw [left, right]
    exact .error _
  · rw [left, right]
    exact .ok pair

theorem modifyNode (alike : d.Alike e) (id : String) {f g : NodeDraft → NodeDraft}
    (changes : ∀ n m, NodeDraft.Alike n m → (f n).Alike (g m)) : (d.modifyNode id f).Alike (e.modifyNode id g) :=
  ⟨alike.nodes.modify id changes, alike.types, alike.partition, alike.cold⟩

theorem atStage (alike : d.Alike e) (stage : Stage) : (d.atStage stage).Alike (e.atStage stage) :=
  ⟨alike.nodes.map (fun _ _ pair => { pair with stage := rfl }), alike.types, alike.partition, alike.cold⟩

theorem expectStage_eq (alike : d.Alike e) (stage : Stage) : d.expectStage stage = e.expectStage stage := by
  have pairs : List.Forall₂ (fun a b => a.1 = b.1 ∧ a.2.Alike b.2) d.nodes.entries e.nodes.entries := alike.nodes
  unfold Draft.expectStage
  generalize d.nodes.entries = left at pairs ⊢
  generalize e.nodes.entries = right at pairs ⊢
  induction pairs with
  | nil => rfl
  | cons first _ ih =>
    simp only [List.forM_eq_forM, List.forM_cons, first.1, first.2.stage] at ih ⊢
    rw [ih]

theorem inlinedIds_eq (alike : d.Alike e) : d.inlinedIds = e.inlinedIds := by
  have pairs : List.Forall₂ (fun a b => a.1 = b.1 ∧ a.2.Alike b.2) d.nodes.entries e.nodes.entries := alike.nodes
  unfold inlinedIds
  generalize d.nodes.entries = left at pairs ⊢
  generalize e.nodes.entries = right at pairs ⊢
  induction pairs with
  | nil => rfl
  | cons first _ ih =>
    rw [List.filter_cons, List.filter_cons, first.2.inlined]
    split
    · rw [List.map_cons, List.map_cons, first.1, ih]
    · exact ih

theorem dropInlined (alike : d.Alike e) : d.dropInlined.Alike e.dropInlined := by
  rw [dropInlined_eq, dropInlined_eq]
  refine ⟨alike.nodes, alike.types, ?_, fun c member => ?_⟩
  · rw [alike.partition, alike.inlinedIds_eq]
  · obtain ⟨whole, listed, rfl⟩ := List.mem_map.mp member
    exact alike.cold whole listed

end Alike
end Draft
end DspPatch
