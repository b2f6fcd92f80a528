import DspPatch.Proofs.GivenSymbols

/-!
When symbols are unique. A symbol is the head of its owner, an underscore and a part of its own; the head of a node is its
stem, that of helper code its tag. Two symbols of one owner are always different. Symbols of two owners are the same
exactly if the own part of one goes on where the head of the other does, which takes an underscore in that head.
-/
namespace DspPatch

/-- Whose symbols begin alike. -/
inductive Owner where
  | engine (key : String)
  | node (id : String)
  | code (tag : String)
  | coldGroups
  | listeners (id : String)
  | callers (id : String)
deriving DecidableEq

/-- What the symbols of an owner begin with. A symbol of the engine is nothing but its head. -/
def Owner.head (g : Graph) (debug : Bool) : Owner → String
  | .engine key => (Engine.symbols.lookup key).getD ""
  | .node id => ((g.get? id).map (Symbols.stem debug)).getD ""
  | .code tag => tag
  | .coldGroups => "COLD"
  | .listeners id => "outletListeners_" ++ id
  | .callers id => "inletCallers_" ++ id

/-- What a symbol is allocated for: a variable of the engine, or the place of a slot. -/
inductive Allocation where
  | engine (key : String)
  | place (slot : SymbolSlot)
deriving DecidableEq

namespace Allocation

/-- The symbol that is allocated. A sender counts only if it has a function of its own; the tags of types are no symbols. -/
def Holds (result : CompiledProgram) (d : Draft) : Allocation → String → Prop
  | .engine key, symbol => Engine.get key = .ok symbol
  | .place (.portlet .snds id outlet), symbol => result.symbols.at? (.portlet .snds id outlet) = some symbol ∧
      ∃ m sender, d.nodes.get? id = some m ∧ m.senders.get? outlet = some sender ∧ sender.needsFunction = true
  | .place (.typeTag _), _ => False
  | .place slot, symbol => result.symbols.at? slot = some symbol

def owner : Allocation → Owner
  | .engine key => .engine key
  | .place (.state id) => .node id
  | .place (.portlet _ id _) => .node id
  | .place (.global tag _) => .code tag
  | .place (.typeTag type) => .code type
  | .place (.coldGroup _) => .coldGroups
  | .place (.listener id _) => .listeners id
  | .place (.caller id _) => .callers id

/-- The part of the symbol behind the head. -/
def own : Allocation → Option String
  | .engine _ => none
  | .place (.state _) => some "STATE"
  | .place (.portlet slot _ portlet) => some (slot.mark ++ "_" ++ portlet)
  | .place (.global _ name) => some name
  | .place (.typeTag _) => none
  | .place (.coldGroup key) => some key
  | .place (.listener _ outlet) => some outlet
  | .place (.caller _ inlet) => some inlet

end Allocation

/-- A head and, behind an underscore, an own part. -/
def spell (head : String) : Option String → String
  | none => head
  | some own => head ++ "_" ++ own

/-- The own part behind a head goes on where a longer head does. -/
def Overlaps (short : String) (own : Option String) (long : String) (other : Option String) : Prop :=
  ∃ rest, long = short ++ "_" ++ rest ∧ own = some (spell rest other)

/-- Of two texts that are the same, the one with the longer head continues its head in the own part of the other. -/
theorem overlaps_of_longer {head head' own own' : String} {between : List Char}
    (longer : head'.toList = head.toList ++ between) (rest : '_' :: own.toList = between ++ '_' :: own'.toList) :
    (head = head' ∧ own = own') ∨ Overlaps head (some own) head' (some own') := by
  cases between with
  | nil =>
    simp only [List.append_nil, String.toList_inj] at longer
    simp only [List.nil_append, List.cons.injEq, true_and, String.toList_inj] at rest
    exact .inl ⟨longer.symm, rest⟩
  | cons c between =>
    simp only [List.cons_append, List.cons.injEq] at rest
    obtain ⟨rfl, rest⟩ := rest
    refine .inr ⟨String.ofList between, ?_, ?_⟩
    · apply String.toList_inj.mp
      simp [longer]
    · simp only [spell, Option.some.injEq]
      apply String.toList_inj.mp
      simp [rest]

theorem spell_eq_of_overlaps {short long : String} {own other : Option String} (overlap : Overlaps short own long other) :
    spell short own = spell long other := by
  obtain ⟨rest, rfl, rfl⟩ := overlap
  cases other <;> simp [spell, String.append_assoc]

theorem spell_eq_iff {head head' : String} {own own' : Option String} :
    spell head own = spell head' own' ↔
      (head = head' ∧ own = own') ∨ Overlaps head own head' own' ∨ Overlaps head' own' head own := by
  constructor
  · intro same
    cases own with
    | none =>
      cases own' with
      | none => exact .inl ⟨same, rfl⟩
      | some own' => exact .inr (.inr ⟨own', same, rfl⟩)
    | some own =>
      cases own' with
      | none => exact .inr (.inl ⟨own, same.symm, rfl⟩)
      | some own' =>
        have lists : head.toList ++ '_' :: own.toList = head'.toList ++ '_' :: own'.toList := by
          simpa [spell, String.append_assoc] using congrArg String.toList same
        rcases List.append_eq_append_iff.mp lists with ⟨between, longer, rest⟩ | ⟨between, longer, rest⟩
        · rcases overlaps_of_longer longer rest with ⟨rfl, rfl⟩ | overlap
          · exact .inl ⟨rfl, rfl⟩
          · exact .inr (.inl overlap)
        · rcases overlaps_of_longer longer rest with ⟨rfl, rfl⟩ | overlap
          · exact .inl ⟨rfl, rfl⟩
          · exact .inr (.inr overlap)
  · rintro (⟨rfl, rfl⟩ | overlap | overlap)
    · rfl
    · exact spell_eq_of_overlaps overlap
    · exact (spell_eq_of_overlaps overlap).symm

theorem spell_injective {head : String} {own own' : Option String} (same : spell head own = spell head own') :
    own = own' := by
  have longer : ∀ own : String, head ++ "_" ++ own ≠ head := by
    intro own same
    have lengths := congrArg String.length same
    rw [String.length_append, String.length_append, show "_".length = 1 from rfl] at lengths
    omega
  cases own with
  | none =>
    cases own' with
    | none => rfl
    | some own' => exact absurd same.symm (longer own')
  | some own =>
    cases own' with
    | none => exact absurd same (longer own)
    | some own' => simpa [spell, String.append_assoc] using same

theorem mark_own_injective {slot slot' : PortletSlot} {own own' : String}
    (same : slot.mark ++ "_" ++ own = slot'.mark ++ "_" ++ own') : slot = slot' ∧ own = own' := by
  have lists := congrArg String.toList same
  cases slot <;> cases slot' <;> simp [PortletSlot.mark] at lists ⊢
  all_goals exact String.toList_inj.mp lists

theorem mark_own_ne_state (slot : PortletSlot) (own : String) : slot.mark ++ "_" ++ own ≠ "STATE" := by
  intro same
  have lists := congrArg String.toList same
  cases slot <;> simp [PortletSlot.mark] at lists

/-- An owner tells its symbols apart by their own parts. -/
theorem Allocation.eq_of_own_eq {result : CompiledProgram} {d : Draft} {a b : Allocation} {x y : String}
    (aHolds : a.Holds result d x) (bHolds : b.Holds result d y) (owner : a.owner = b.owner) (own : a.own = b.own) :
    a = b := by
  cases a with
  | engine key =>
    cases b with
    | engine key' => simpa [Allocation.owner] using owner
    | place slot => cases slot <;> simp [Allocation.owner] at owner
  | place slot =>
    cases b with
    | engine key => cases slot <;> simp [Allocation.owner] at owner
    | place slot' =>
      cases slot with
      | typeTag => exact aHolds.elim
      | state id =>
        cases slot' with
        | state id' => simpa [Allocation.owner] using owner
        | portlet kind id' portlet => exact absurd (Option.some.inj own).symm (mark_own_ne_state kind portlet)
        | _ => simp [Allocation.owner] at owner
      | portlet kind id portlet =>
        cases slot' with
        | state id' => exact absurd (Option.some.inj own) (mark_own_ne_state kind portlet)
        | portlet kind' id' portlet' =>
          obtain ⟨rfl, rfl⟩ := mark_own_injective (Option.some.inj own)
          cases owner
          rfl
        | _ => simp [Allocation.owner] at owner
      | global tag name =>
        cases slot' with
        | global tag' name' =>
          cases owner
          cases own
          rfl
        | typeTag => exact bHolds.elim
        | _ => simp [Allocation.owner] at owner
      | coldGroup key =>
        cases slot' with
        | coldGroup key' =>
          cases own
          rfl
        | _ => simp [Allocation.owner] at owner
      | listener id outlet =>
        cases slot' with
        | listener id' outlet' =>
          cases owner
          cases own
          rfl
        | _ => simp [Allocation.owner] at owner
      | caller id inlet =>
        cases slot' with
        | caller id' inlet' =>
          cases owner
          cases own
          rfl
        | _ => simp [Allocation.owner] at owner

/-- Two owners spell a symbol in the same way. -/
def Allocation.Clash (g : Graph) (debug : Bool) (a b : Allocation) : Prop :=
  a.owner ≠ b.owner ∧ ((a.owner.head g debug = b.owner.head g debug ∧ a.own = b.own) ∨
    Overlaps (a.owner.head g debug) a.own (b.owner.head g debug) b.own ∨
    Overlaps (b.owner.head g debug) b.own (a.owner.head g debug) a.own)

variable {g : Graph} {r : Registry} {s : Settings} {full : List String} {passes : Passes ⟨g.trim full, r, s⟩ full}
  {p : Partition}

/-- The symbols of a node begin with its head. -/
theorem Passes.Lead.head_of_stem? (lead : passes.Lead p) (keyed : ∀ {key n}, g.get? key = some n → n.id = key)
    {id stem : String} (stored : passes.finished.symbols.stem? id = some stem) :
    (Owner.node id).head g s.debug = stem := by
  rw [lead.stem? (Graph.keyed_trim g full) id] at stored
  obtain ⟨_, trimmed, rfl⟩ := Option.map_eq_some_iff.mp stored
  obtain ⟨n, found, _, rfl⟩ := (Graph.get?_trim keyed).mp trimmed
  show ((g.get? id).map (Symbols.stem s.debug)).getD "" = _
  rw [found]
  rfl

/-- A sender with a function of its own has a symbol of its own. -/
theorem Passes.Lead.symbol_of_needsFunction (lead : passes.Lead p) {id outlet symbol : String} {m : NodeDraft}
    {sender : Sender} (stored : passes.finished.draft.nodes.get? id = some m) (sends : m.senders.get? outlet = some sender)
    (function : sender.needsFunction = true)
    (given : passes.finished.symbols.at? (.portlet .snds id outlet) = some symbol) :
    ∃ stem, passes.finished.symbols.stem? id = some stem ∧ symbol = s!"{stem}_{PortletSlot.snds.mark}_{outlet}" := by
  obtain ⟨n, found, _, sent⟩ := lead.messages stored
  have named : Draft.Given _ (.portlet .snds id outlet) := passes.given (by rw [given]; simp)
  obtain ⟨n', found', o, listed, rfl⟩ := named
  cases found.symm.trans found'
  obtain ⟨_, _, _, sends', isSender⟩ := sent o listed
  cases sends.symm.trans sends'
  cases given.symm.trans isSender.stored
  have stems := lead.stem? (Graph.keyed_trim g full) id
  rw [found] at stems
  refine ⟨_, stems, ?_⟩
  rw [isSender.symbol (passes.sendersUnnamed id) _ stems]
  rw [isSender.dedicated, decide_eq_true_eq] at function
  exact Draft.senderSymbol_of_several function

/-- Every symbol is spelled as its place asks for. -/
theorem Passes.Lead.eq_spell (lead : passes.Lead p) (keyed : ∀ {key n}, g.get? key = some n → n.id = key)
    (provenance : Provenance) {a : Allocation} {symbol : String}
    (holds : a.Holds (passes.result provenance) passes.finished.draft symbol) :
    symbol = spell (a.owner.head g s.debug) a.own := by
  have ofPortlet : ∀ {kind : PortletSlot} {id portlet stem}, passes.finished.symbols.stem? id = some stem →
      s!"{stem}_{kind.mark}_{portlet}" = spell ((Owner.node id).head g s.debug) (some (kind.mark ++ "_" ++ portlet)) := by
    intro kind id portlet stem stored
    rw [lead.head_of_stem? keyed stored]
    show stem ++ "_" ++ kind.mark ++ "_" ++ portlet = stem ++ "_" ++ (kind.mark ++ "_" ++ portlet)
    simp only [String.append_assoc]
  cases a with
  | engine key =>
    have read : Engine.get key = .ok symbol := holds
    unfold Engine.get at read
    split at read
    next known =>
      cases read
      show symbol = (Engine.symbols.lookup key).getD ""
      rw [known]
      rfl
    next => cases read
  | place slot =>
    cases slot with
    | typeTag => exact holds.elim
    | state id =>
      obtain ⟨stem, stored, rfl⟩ := lead.shaped _ _ holds
      rw [Allocation.owner, lead.head_of_stem? keyed stored]
      show stem ++ ("_" ++ "STATE") = stem ++ "_" ++ "STATE"
      rw [String.append_assoc]
    | portlet kind id portlet =>
      cases kind with
      | snds =>
        obtain ⟨given, m, sender, stored, sends, function⟩ := holds
        obtain ⟨stem, stems, rfl⟩ := lead.symbol_of_needsFunction stored sends function given
        exact ofPortlet stems
      | outs | rcvs =>
        obtain ⟨_, stem, stems, rfl⟩ := lead.shaped _ _ holds
        exact ofPortlet stems
    | global tag name => exact lead.shaped _ _ holds
    | coldGroup key => exact lead.shaped _ _ holds
    | listener id outlet => exact lead.shaped _ _ holds
    | caller id inlet => exact lead.shaped _ _ holds

/-- Every symbol is its head and its own part, and symbols of two places are the same only where two owners clash. -/
theorem symbols_shared_iff {request : SettingsRequest} {result : CompiledProgram}
    (accepted : g.checkIntegrity = .ok ()) (compiled : compile g r request = .ok result) :
    ∃ d, (Compilation.run { graph := g, registry := r, request } .assemble).2.draft = some d ∧
      (∀ (a : Allocation) symbol, a.Holds result d symbol → symbol = spell (a.owner.head g result.settings.debug) a.own) ∧
      ∀ (a b : Allocation) x y, a.Holds result d x → b.Holds result d y →
        (x = y ↔ a = b ∨ Allocation.Clash g result.settings.debug a b) := by
  have mirrored := Graph.checkIntegrity_eq_ok_iff.mp accepted
  obtain ⟨s, full, _, _, passes, rfl, draft⟩ := exists_passes compiled
  obtain ⟨p, lead⟩ := passes.exists_lead (Graph.keyed_trim g full)
  have spelled : ∀ (a : Allocation) symbol, a.Holds (passes.result (.of g r)) passes.finished.draft symbol →
      symbol = spell (a.owner.head g s.debug) a.own :=
    fun _ _ holds => lead.eq_spell mirrored.keyed _ holds
  refine ⟨_, draft, spelled, fun a b x y aHolds bHolds => ?_⟩
  rw [spelled a x aHolds, spelled b y bHolds]
  constructor
  · intro same
    by_cases owner : a.owner = b.owner
    · rw [owner] at same
      exact .inl (Allocation.eq_of_own_eq aHolds bHolds owner (spell_injective same))
    · exact .inr ⟨owner, spell_eq_iff.mp same⟩
  · rintro (rfl | ⟨_, clash⟩)
    · rfl
    · exact spell_eq_iff.mpr clash

/-- Two sources of an output. The id of the second goes on where the first one's symbol does. -/
def clashPatch : Graph := [
  { Node.bare "a" "src" with
    outlets := .ofList [("b_OUTS_c", ⟨"b_OUTS_c", .signal⟩)], sinks := .ofList [("b_OUTS_c", [⟨"out", "0"⟩])] },
  { Node.bare "a_OUTS_b" "src" with
    outlets := .ofList [("c", ⟨"c", .signal⟩)], sinks := .ofList [("c", [⟨"out", "1"⟩])] },
  { Node.bare "out" "dac" with
    inlets := .ofList [("0", ⟨"0", .signal⟩), ("1", ⟨"1", .signal⟩)]
    sources := .ofList [("0", [⟨"a", "b_OUTS_c"⟩]), ("1", [⟨"a_OUTS_b", "c"⟩])]
    isPullingSignal := true }].foldl Graph.insert .empty

def clashRegistry : Registry := Registry.empty |>.register "src" {} |>.register "dac" {}

/-- The two sources share the variable of their outlets, but not the one of their states. -/
theorem symbols_shared_iff_sources :
    ∃ result d, compile clashPatch clashRegistry {} = .ok result ∧
      (Compilation.run { graph := clashPatch, registry := clashRegistry, request := {} } .assemble).2.draft = some d ∧
      Allocation.Holds result d (.place (.portlet .outs "a" "b_OUTS_c")) "a_OUTS_b_OUTS_c" ∧
      Allocation.Holds result d (.place (.portlet .outs "a_OUTS_b" "c")) "a_OUTS_b_OUTS_c" ∧
      Allocation.Clash clashPatch result.settings.debug (.place (.portlet .outs "a" "b_OUTS_c"))
        (.place (.portlet .outs "a_OUTS_b" "c")) ∧
      ¬ Allocation.Clash clashPatch result.settings.debug (.place (.state "a")) (.place (.state "a_OUTS_b")) := by
  have given : (compile clashPatch clashRegistry {}).map (fun result =>
      (result.symbols.at? (.portlet .outs "a" "b_OUTS_c"), result.symbols.at? (.portlet .outs "a_OUTS_b" "c"),
        result.symbols.at? (.state "a"), result.symbols.at? (.state "a_OUTS_b"))) =
      .ok (some "a_OUTS_b_OUTS_c", some "a_OUTS_b_OUTS_c", some "a_STATE", some "a_OUTS_b_STATE") := by
    decide +kernel
  cases compiled : compile clashPatch clashRegistry {} with
  | error e =>
    rw [compiled] at given
    cases given
  | ok result =>
    rw [compiled] at given
    have symbols := Except.ok.inj given
    simp only [Prod.mk.injEq] at symbols
    obtain ⟨first, second, state, state'⟩ := symbols
    obtain ⟨d, draft, _, shared⟩ := symbols_shared_iff (by decide +kernel) compiled
    refine ⟨result, d, rfl, draft, first, second, ?_, ?_⟩
    · exact ((shared (.place (.portlet .outs "a" "b_OUTS_c")) (.place (.portlet .outs "a_OUTS_b" "c")) _ _
        first second).mp rfl).resolve_left (by decide)
    · intro clash
      exact absurd ((shared (.place (.state "a")) (.place (.state "a_OUTS_b")) _ _ state state').mpr (.inr clash))
        (by decide)

end DspPatch
