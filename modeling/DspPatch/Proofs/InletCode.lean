import DspPatch.Proofs.Draft.CodeParts
import DspPatch.Proofs.Draft.ExactPartition
import DspPatch.Proofs.Draft.InletCode
import DspPatch.Proofs.GivenSymbols

/-!
Where inlet code is emitted. The code of an inlet of a hot node is in the frame loop, before the loop code of the node,
exactly if no cold group feeds the inlet. An inlet that takes signals from a cold group and from hot nodes as well has its
code in the function of the group only (`inlet_code_placed_iff`). So no inlet code of hot nodes is lost
(`hot_inlet_code_emitted`); that of inlined nodes and of members of cold groups can be.
-/
namespace DspPatch

/-- Some node among `ids` has a signal outlet with a sink at `place`. -/
def Graph.SignalsInto (g : Graph) (ids : List String) (place : Endpoint) : Prop :=
  ∃ u ∈ ids, ∃ n ∈ g.get? u, place ∈ n.sinkEndpoints .signal

instance (g : Graph) (ids : List String) (place : Endpoint) : Decidable (g.SignalsInto ids place) :=
  inferInstanceAs (Decidable (∃ u ∈ ids, ∃ n ∈ g.get? u, place ∈ n.sinkEndpoints .signal))

/-- Code is emitted in the frame loop of a program or in the function of a cold group. -/
def Draft.EmitsDsp (d : Draft) (s : Symbols) (program code : Sequence) : Prop :=
  (∃ loop, d.frameLoop s = .ok loop ∧ .frameLoop loop ∈ program.content ∧ loop.body.Emits code) ∨
    ∃ c ∈ d.partition.cold, ∃ f, d.coldFunction c = .ok f ∧ .function f ∈ program.content ∧ f.body.Emits code

theorem Cold.sink_mem_leaving_iff {g : Graph} {traversal members : List String} {place : Endpoint}
    (away : place.node ∉ members) :
    (∃ k ∈ leaving g traversal members, k.sink = place) ↔ g.SignalsInto traversal place := by
  simp only [leaving, List.mem_flatMap, Graph.SignalsInto, Node.sinkEndpoints]
  constructor
  · rintro ⟨k, ⟨u, listed, inside⟩, rfl⟩
    cases found : g.get? u with
    | none => simp [found] at inside
    | some n =>
      rw [found] at inside
      obtain ⟨o, outlet, inside⟩ := List.mem_flatMap.mp inside
      obtain ⟨sink, recorded, rfl⟩ := List.mem_map.mp inside
      exact ⟨u, listed, n, found, o, outlet, (List.mem_filter.mp recorded).1⟩
  · rintro ⟨u, listed, n, found, o, outlet, recorded⟩
    refine ⟨⟨⟨u, o.id⟩, place⟩, ⟨u, listed, ?_⟩, rfl⟩
    rw [found]
    refine List.mem_flatMap.mpr ⟨o, outlet, List.mem_map.mpr ⟨place, List.mem_filter.mpr ⟨recorded, ?_⟩, rfl⟩⟩
    simpa using away

theorem Graph.signalsInto_iff_connects {g : Graph} (wf : g.WellFormed) {ids : List String} {place : Endpoint} :
    g.SignalsInto ids place ↔ ∃ source, source.node ∈ ids ∧ g.Connects .signal ⟨source, place⟩ := by
  constructor
  · rintro ⟨u, listed, n, found, member⟩
    obtain ⟨o, outlet, recorded⟩ := List.mem_flatMap.mp member
    obtain ⟨declared, kind⟩ := (mem_outletsOf_iff wf found).mp outlet
    exact ⟨⟨u, o.id⟩, listed, n, o, found, declared, kind, recorded⟩
  · rintro ⟨⟨u, outlet⟩, listed, n, o, found, declared, kind, recorded⟩
    cases wf.outletId found declared
    refine ⟨u, listed, n, found, List.mem_flatMap.mpr ⟨o, (mem_outletsOf_iff wf found).mpr ⟨declared, kind⟩, recorded⟩⟩

namespace Draft
variable {g : Graph} {r : Registry} {d : Draft} {p : Partition}

/-- The nodes that carry signals are hot unless they are inlined or left in a cold group. -/
theorem SplitFrom.mem_hot {full signal inlined : List String} (split : SplitFrom g r full signal p) {v : String}
    (traversed : v ∈ full) (reached : v ∈ signal) (plain : v ∉ inlined)
    (outside : ∀ c ∈ (p.without inlined).cold, v ∉ c.group.traversal) : v ∈ (p.without inlined).hot.traversal := by
  obtain ⟨eligible, _, groups, hotNodes⟩ := split
  have ordered : v ∈ full.filter (fun id => signal.contains id) :=
    List.mem_filter.mpr ⟨traversed, List.contains_iff_mem.mpr reached⟩
  refine Group.mem_without_iff.mpr ⟨?_, plain⟩
  rw [hotNodes]
  refine List.mem_filter.mpr ⟨ordered, ?_⟩
  simp only [Bool.not_eq_true', List.any_eq_false, List.contains_iff_mem]
  intro members component inside
  -- A component that holds `v` has become a cold group, which `v` was not taken out of.
  have formed := List.mem_map_of_mem (f := Cold.group g (full.filter (fun id => signal.contains id))) component
  rw [← groups] at formed
  obtain ⟨c, listed, same⟩ := List.mem_map.mp formed
  have left : v ∈ (c.group.without inlined).traversal := by
    rw [(Prod.mk.inj same).1]
    exact Group.mem_without_iff.mpr ⟨List.mem_filter.mpr ⟨ordered, List.contains_iff_mem.mpr inside⟩, plain⟩
  exact outside _ (List.mem_map_of_mem listed) left

/-- A cold group leaves to an inlet of a hot node if one of its members feeds the inlet. -/
theorem SplitFrom.leaves_iff {full signal : List String} (split : SplitFrom g r full signal p) {c : ColdGroup}
    (listed : c ∈ p.cold) {place : Endpoint} (hot : place.node ∈ p.hot.traversal) :
    (∃ k ∈ c.sinkConnections, k.sink = place) ↔ g.SignalsInto c.group.traversal place := by
  obtain ⟨eligible, _, groups, hotNodes⟩ := split
  have formed : (c.group, c.sinkConnections) ∈ p.cold.map (fun c => (c.group, c.sinkConnections)) :=
    List.mem_map_of_mem listed
  rw [groups] at formed
  obtain ⟨members, component, same⟩ := List.mem_map.mp formed
  have away : place.node ∉ members := by
    intro inside
    rw [hotNodes] at hot
    have apart := (List.mem_filter.mp hot).2
    simp only [Bool.not_eq_true', List.any_eq_false, List.contains_iff_mem] at apart
    exact apart members component inside
  obtain ⟨sameGroup, sameConnections⟩ := Prod.mk.inj same
  rw [← sameConnections, ← sameGroup]
  exact Cold.sink_mem_leaving_iff away

/-- Where the code of an inlet of a hot node is. The groups were `p` before inlined nodes were taken out. -/
structure InletPlaced (g : Graph) (d : Draft) (p : Partition) (place : Endpoint) : Prop where
  /-- It is in the frame loop if no cold group feeds the inlet. -/
  framed : .inlet place ∈ d.frameParts ↔ ∀ c ∈ p.cold, ¬g.SignalsInto c.group.traversal place
  /-- There it stands before the loop code of the node. -/
  ahead : .inlet place ∈ d.frameParts → .loop place.node ∈ d.frameParts ∧
    ∀ earlier later, d.frameParts = earlier ++ .loop place.node :: later → .inlet place ∈ earlier
  /-- It is in the function of each cold group that feeds the inlet. -/
  grouped : ∀ c ∈ p.cold, .inlet place ∈ groupParts d.inlinedIds c ↔ g.SignalsInto c.group.traversal place

theorem SplitFrom.inletPlaced {full signal : List String} (split : SplitFrom g r full signal p)
    (partition : d.partition = p.without d.inlinedIds) {id inlet : String} {m : NodeDraft}
    (hot : id ∈ d.partition.hot.traversal) (stored : d.nodes.get? id = some m) (coded : inlet ∈ m.inletDsp.keys) :
    InletPlaced g d p ⟨id, inlet⟩ := by
  have wasHot : id ∈ p.hot.traversal := (Group.mem_without_iff.mp (partition ▸ hot)).1
  refine ⟨?_, inlet_before_loop, fun c listed => inlet_mem_groupParts_iff.trans (split.leaves_iff listed wasHot)⟩
  rw [inlet_mem_frameParts_iff hot stored coded, mem_coldFed_iff partition]
  constructor
  · intro away c listed feeds
    exact away ⟨c, listed, (split.leaves_iff listed wasHot).mpr feeds⟩
  · rintro away ⟨c, listed, leaves⟩
    exact away c listed ((split.leaves_iff listed wasHot).mp leaves)

/-- Inlet code of a hot node is in the frame loop or in the function of a cold group. -/
theorem InletPlaced.cases {place : Endpoint} (placed : InletPlaced g d p place) :
    .inlet place ∈ d.frameParts ∨ ∃ c ∈ p.cold, .inlet place ∈ groupParts d.inlinedIds c := by
  by_cases fed : ∃ c ∈ p.cold, g.SignalsInto c.group.traversal place
  · obtain ⟨c, listed, feeds⟩ := fed
    exact .inr ⟨c, listed, (placed.grouped c listed).mpr feeds⟩
  · exact .inl (placed.framed.mpr (fun c listed feeds => fed ⟨c, listed, feeds⟩))

end Draft

namespace Passes.Lead
variable {input : BuildInput} {full : List String} {passes : Passes input full} {p : Partition} (lead : passes.Lead p)
include lead

theorem inlinedIds : passes.finished.draft.inlinedIds = passes.divided.draft.inlinedIds :=
  (lead.synthesis.keepsGroups.trans lead.finishing.keepsGroups).inlinedIds

theorem partition : passes.finished.draft.partition = p.without passes.finished.draft.inlinedIds := by
  rw [lead.inlinedIds, (lead.synthesis.keepsGroups.trans lead.finishing.keepsGroups).partition]
  exact lead.division.partition

/-- A hot node has a draft and is not inlined. -/
theorem exists_hot {signal : List String} (split : Draft.SplitFrom input.graph input.registry full signal p) {v : String}
    (hot : v ∈ passes.finished.draft.partition.hot.traversal) :
    ∃ m, passes.finished.draft.nodes.get? v = some m ∧ m.inlined = false := by
  rw [lead.partition] at hot
  obtain ⟨wasHot, stays⟩ := Group.mem_without_iff.mp hot
  obtain ⟨_, _, _, hotNodes⟩ := split
  rw [hotNodes] at wasHot
  have traversed : v ∈ full := (List.filter_sublist.trans List.filter_sublist).subset wasHot
  obtain ⟨m, stored⟩ := Table.mem_keys_iff.mp ((lead.mem_keys_iff v).mpr traversed)
  exact ⟨m, stored, Bool.eq_false_iff.mpr (fun inlined => stays (Draft.mem_inlinedIds_iff.mpr ⟨m, stored, inlined⟩))⟩

/-- A member of a cold group that feeds a hot node is left in the group. -/
theorem feeder_left {order firsts : List String} (partitioned : Draft.Partitioned input full order firsts p passes.divided)
    (run : input.graph.RunOrder order) {c : ColdGroup} (listed : c ∈ p.cold) {k : Connection}
    (hot : k.sink.node ∈ p.hot.traversal) (inside : k.source.node ∈ c.group.traversal)
    (connects : input.graph.Connects .signal k) :
    k.source.node ∈ (c.group.without passes.finished.draft.inlinedIds).traversal := by
  obtain ⟨first, _, group⟩ := partitioned.split.coldGroup listed
  have away : k.sink.node ∉ c.group.traversal := fun member =>
    ((partitioned.split.hot_iff _).mp hot).2 (group.eligible member)
  -- Fusion takes no node out of its group that has a sink outside.
  have out := (group.outNodes _).mpr ⟨k, (group.connections k).mpr ⟨connects, inside, away⟩, rfl⟩
  have stays := partitioned.out_not_inlined run (List.mem_cons_of_mem _ (List.mem_map_of_mem listed)) inside out
  rw [← lead.inlinedIds] at stays
  exact Group.mem_without_iff.mpr ⟨inside, stays⟩

theorem inletCodeMade {v : String} {m : NodeDraft} (stored : passes.finished.draft.nodes.get? v = some m)
    (plain : m.inlined = false) : Draft.InletCodeMade input passes.finished.symbols v m := by
  have present : ∀ id ∈ passes.spoken.draft.nodes.keys, ∃ n, input.graph.get? id = some n := by
    intro id member
    rw [lead.synthesis.keys, lead.division.keys] at member
    exact lead.prepared.present id ((lead.prepared.keys id).mp member)
  exact (Draft.finish_inletCode lead.synthesis.staged present).of_run passes.finishes v m stored plain

end Passes.Lead

/-- In a well-formed graph a cold group feeds an inlet of a hot node if a source of the inlet is left in the group. -/
theorem Passes.Lead.exists_sources {g : Graph} {r : Registry} {s : Settings} {full callers signal : List String}
    {p : Partition} {passes : Passes ⟨g.trim full, r, s⟩ full} (lead : passes.Lead p) (wf : g.WellFormed)
    (traversal : g.fullTraversal callers = .ok full)
    (walk : (g.trim full).signalTraversal (fun _ => true) (Draft.pulling (g.trim full) full) = .ok signal)
    (split : Draft.Walked (g.trim full) full signal → ∃ firsts,
      Draft.SplitOf (g.trim full) r full (full.filter (fun id => signal.contains id)) firsts p)
    {v : String} (hot : v ∈ passes.finished.draft.partition.hot.traversal) :
    ∃ n, g.get? v = some n ∧ ∀ inlet i, n.inlets.get? inlet = some i → i.kind = .signal → ∀ c ∈ p.cold,
      ((g.trim full).SignalsInto c.group.traversal ⟨v, inlet⟩ ↔
        ∃ source ∈ n.sourcesOf inlet, source.node ∈ (c.group.without passes.finished.draft.inlinedIds).traversal) := by
  have walked := Draft.walked_of_runnable (Graph.runnable_of_fullTraversal wf traversal) walk
  obtain ⟨firsts, split⟩ := split walked
  have partitioned := lead.division.partitioned walked.wf lead.prepared split
  have wasHot : v ∈ p.hot.traversal := (Group.mem_without_iff.mp (lead.partition ▸ hot)).1
  obtain ⟨_, trimmed⟩ := walked.run.known v (split.hotSublist.subset wasHot)
  obtain ⟨n, found, kept, rfl⟩ := (Graph.get?_trim wf.keyed).mp trimmed
  refine ⟨n, found, fun inlet i declared kind c listed => ?_⟩
  obtain ⟨_, _, group⟩ := split.coldGroup listed
  rw [Graph.signalsInto_iff_connects walked.wf]
  constructor
  · rintro ⟨source, inside, connects⟩
    obtain ⟨n', _, found', _, _, recorded⟩ := (Graph.connects_iff_source wf).mp ((Graph.connects_trim_iff wf).mp connects).1
    cases found.symm.trans found'
    exact ⟨source, recorded, lead.feeder_left partitioned walked.run listed wasHot inside connects⟩
  · rintro ⟨source, recorded, left⟩
    have inside := (Group.mem_without_iff.mp left).1
    have traversed := (group.sublist.trans List.filter_sublist).subset inside
    have connects : g.Connects .signal ⟨source, ⟨v, inlet⟩⟩ :=
      (Graph.connects_iff_source wf).mpr ⟨n, i, found, declared, kind, recorded⟩
    exact ⟨source, inside, (Graph.connects_trim_iff wf).mpr ⟨connects, traversed, kept⟩⟩

namespace Draft
variable {g : Graph} {r : Registry} {request : SettingsRequest} {result : CompiledProgram}

/-- The code of an inlet of a hot node is in the frame loop, before the loop code of the node, if no cold group feeds the
    inlet, and otherwise in the functions of the groups that feed it. In a checked graph these are the groups of the
    sources of the inlet. -/
theorem inlet_code_placed_iff (compiled : compile g r request = .ok result) :
    ∃ d before loop, (Compilation.run { graph := g, registry := r, request } .assemble).2.draft = some d ∧
      (∃ signal, (g.trim result.traversal).signalTraversal (fun _ => true)
          (pulling (g.trim result.traversal) result.traversal) = .ok signal ∧
        SplitFrom (g.trim result.traversal) r result.traversal signal before) ∧
      d.partition = before.without d.inlinedIds ∧
      .frameLoop loop ∈ result.program.content ∧ loop.body = d.written d.frameParts ∧
      (∀ c ∈ before.cold,
        .function (messageFunction c.function (d.written (groupParts d.inlinedIds c))) ∈ result.program.content) ∧
      (∀ v ∈ d.partition.hot.traversal, ∃ m, d.nodes.get? v = some m ∧
        ∀ inlet code, m.inletDsp.get? inlet = some code → (CodePart.inlet ⟨v, inlet⟩).code d = code ∧
          InletPlaced (g.trim result.traversal) d before ⟨v, inlet⟩) ∧
      (g.checkIntegrity = .ok () → g.PortletsKeyed → g.KindsAgree → ∀ v ∈ d.partition.hot.traversal,
        ∃ n, g.get? v = some n ∧ ∀ inlet i, n.inlets.get? inlet = some i → i.kind = .signal → ∀ c ∈ before.cold,
          ((g.trim result.traversal).SignalsInto c.group.traversal ⟨v, inlet⟩ ↔
            ∃ source ∈ n.sourcesOf inlet, source.node ∈ (c.group.without d.inlinedIds).traversal)) := by
  obtain ⟨s, full, checked, traversal, passes, rfl, draft⟩ := exists_passes compiled
  obtain ⟨p, signal, lead, walk, cut, split⟩ := passes.exists_lead_split (Graph.keyed_trim g full)
  obtain ⟨⟨loop, _, looped, body⟩, functions⟩ := written_program passes.assembles lead.partition
  refine ⟨_, p, loop, draft, ⟨signal, walk, cut⟩, lead.partition, looped, body, fun c listed => ?_, fun v hot => ?_,
    fun accepted keyed kinds v hot => ?_⟩
  · obtain ⟨_, _, member, rfl⟩ := functions c listed
    exact member
  · obtain ⟨m, stored, _⟩ := lead.exists_hot cut hot
    refine ⟨m, stored, fun inlet code coded => ⟨?_, ?_⟩⟩
    · simp [CodePart.code, stored, coded]
    · exact cut.inletPlaced lead.partition hot stored (Table.mem_keys_of_get? coded)
  · exact lead.exists_sources (Graph.wellFormed_of_checks accepted keyed kinds) traversal walk split hot

/-- A filter whose pitch follows a number and an oscillator together, and whose width follows the oscillator. -/
def tunedPatch : Graph := [
  sampleNode "num" [] ["0"] [] [("0", [⟨"filter", "0"⟩])],
  sampleNode "osc" [] ["0"] [] [("0", [⟨"filter", "0"⟩, ⟨"filter", "1"⟩])],
  sampleNode "filter" ["0", "1"] ["0"] [("0", [⟨"num", "0"⟩, ⟨"osc", "0"⟩]), ("1", [⟨"osc", "0"⟩])]
    [("0", [⟨"out", "0"⟩])],
  sampleNode "out" ["0"] [] [("0", [⟨"filter", "0"⟩])] []].foldl Graph.insert .empty

def tunedFilter : Implementation where
  loop := fun _ => .ok (some (.ofCode "filter()"))
  inletDsp := fun _ => .ok (.ofList [("0", .ofCode "tune()"), ("1", .ofCode "widen()")])

def tunedRegistry : Registry := sampleRegistry.register "filter" tunedFilter

def tunedTraversal : List String := ["num", "osc", "filter", "out"]

/-- The filter is hot and has code for both inlets. -/
private theorem tunedPatch_draft :
    (compile tunedPatch tunedRegistry {}).map CompiledProgram.traversal = .ok tunedTraversal ∧
    ∀ d ∈ (Compilation.run { graph := tunedPatch, registry := tunedRegistry, request := {} } .assemble).2.draft,
      "filter" ∈ d.partition.hot.traversal ∧ "filter" ∉ d.inlinedIds ∧
      (∀ c ∈ d.partition.cold, "filter" ∉ c.group.traversal) ∧
      (d.nodes.get? "filter").map (fun m => m.inletDsp.keys) = some ["0", "1"] := by
  decide +kernel

/-- All nodes carry signals. -/
private theorem tunedPatch_walk : (tunedPatch.trim tunedTraversal).signalTraversal (fun _ => true)
    (pulling (tunedPatch.trim tunedTraversal) tunedTraversal) = .ok tunedTraversal := by
  decide +kernel

/-- The pitch is fed by the number, which is cold, so its code is in the function of the group only, although it follows the
    oscillator too. The code of the width is in the frame loop. -/
theorem inlet_code_placed_iff_tuned :
    ∃ result d loop group, compile tunedPatch tunedRegistry {} = .ok result ∧
      (Compilation.run { graph := tunedPatch, registry := tunedRegistry, request := {} } .assemble).2.draft = some d ∧
      .frameLoop loop ∈ result.program.content ∧ loop.body = d.written d.frameParts ∧
      .function (messageFunction group.function (d.written (groupParts d.inlinedIds group))) ∈ result.program.content ∧
      .inlet ⟨"filter", "0"⟩ ∉ d.frameParts ∧ .inlet ⟨"filter", "0"⟩ ∈ groupParts d.inlinedIds group ∧
      .inlet ⟨"filter", "1"⟩ ∉ groupParts d.inlinedIds group ∧ .loop "filter" ∈ d.frameParts ∧
      ∀ earlier later, d.frameParts = earlier ++ .loop "filter" :: later → .inlet ⟨"filter", "1"⟩ ∈ earlier := by
  obtain ⟨traversal, facts⟩ := tunedPatch_draft
  obtain ⟨result, compiled, order⟩ := map_eq_ok_iff.mp traversal
  obtain ⟨d, before, loop, draft, ⟨signal, walk, eligible, found, groups, _⟩, _, looped, body, functions, placed, _⟩ :=
    inlet_code_placed_iff compiled
  obtain ⟨hot, _, _, coded⟩ := facts d draft
  rw [order] at walk found groups placed
  cases walk.symm.trans tunedPatch_walk
  have cold : eligible = ["num"] := by
    refine Except.ok.inj (found.symm.trans ?_)
    decide +kernel
  subst cold
  have formed : before.cold.map (fun c => c.group.traversal) = [["num"]] := by
    have traversals := congrArg (List.map (fun entry => entry.1.traversal)) groups
    rw [List.map_map] at traversals
    refine traversals.trans ?_
    decide +kernel
  obtain ⟨group, single, members⟩ := List.map_eq_singleton_iff.mp formed
  have listed : group ∈ before.cold := by rw [single]; exact List.mem_cons_self
  obtain ⟨m, stored, each⟩ := placed "filter" hot
  rw [stored] at coded
  have keys : m.inletDsp.keys = ["0", "1"] := Option.some.inj coded
  obtain ⟨_, pitchCode⟩ := Table.mem_keys_iff.mp (show "0" ∈ m.inletDsp.keys by rw [keys]; decide)
  obtain ⟨_, widthCode⟩ := Table.mem_keys_iff.mp (show "1" ∈ m.inletDsp.keys by rw [keys]; decide)
  obtain ⟨_, pitch⟩ := each "0" _ pitchCode
  obtain ⟨_, width⟩ := each "1" _ widthCode
  have feedsPitch : (tunedPatch.trim tunedTraversal).SignalsInto group.group.traversal ⟨"filter", "0"⟩ := by
    rw [members]
    decide +kernel
  have sparesWidth : ¬(tunedPatch.trim tunedTraversal).SignalsInto group.group.traversal ⟨"filter", "1"⟩ := by
    rw [members]
    decide +kernel
  have framed : .inlet ⟨"filter", "1"⟩ ∈ d.frameParts := by
    refine width.framed.mpr (fun c inside => ?_)
    rw [single, List.mem_singleton] at inside
    exact inside ▸ sparesWidth
  refine ⟨result, d, loop, group, compiled, draft, looped, body, functions group listed, fun inFrame => ?_,
    (pitch.grouped group listed).mpr feedsPitch, fun inGroup => ?_, (width.ahead framed).1, (width.ahead framed).2⟩
  · exact pitch.framed.mp inFrame group listed feedsPitch
  · exact sparesWidth ((width.grouped group listed).mp inGroup)

/-- Inlet code of a hot node that a program is written from is emitted. -/
theorem InletPlaced.emits {s : Symbols} {program : Sequence} {d : Draft} {p : Partition} {place : Endpoint}
    (placed : InletPlaced g d p place) (assembled : d.program s = .ok program)
    (partition : d.partition = p.without d.inlinedIds) : d.EmitsDsp s program ((CodePart.inlet place).code d) := by
  obtain ⟨⟨loop, made, looped, body⟩, functions⟩ := written_program assembled partition
  rcases placed.cases with inFrame | ⟨c, listed, inGroup⟩
  · refine .inl ⟨loop, made, looped, ?_⟩
    rw [body]
    exact emits_written inFrame
  · obtain ⟨f, made, member, same⟩ := functions c listed
    refine .inr ⟨_, ?_, f, made, member, ?_⟩
    · rw [partition]
      exact List.mem_map_of_mem listed
    · rw [same]
      exact emits_written inGroup

/-- Every piece of inlet code that the generator of a hot node makes is emitted. -/
theorem hot_inlet_code_emitted (compiled : compile g r request = .ok result) :
    ∃ d signal, (Compilation.run { graph := g, registry := r, request } .assemble).2.draft = some d ∧
      (g.trim result.traversal).signalTraversal (fun _ => true)
        (pulling (g.trim result.traversal) result.traversal) = .ok signal ∧
      ∀ v ∈ result.traversal, v ∈ signal → v ∉ d.inlinedIds → (∀ c ∈ d.partition.cold, v ∉ c.group.traversal) →
        ∃ n i known m fragments, (g.trim result.traversal).get? v = some n ∧ r.types.get? n.type = some i ∧
          Symbols.Grows known result.symbols ∧ d.nodes.get? v = some m ∧
          i.inletDsp ⟨n, known, result.settings, m.signalIns⟩ = .ok fragments ∧
          ∀ inlet code, fragments.get? inlet = some code → d.EmitsDsp result.symbols result.program code := by
  obtain ⟨s, full, checked, traversal, passes, rfl, draft⟩ := exists_passes compiled
  obtain ⟨p, signal, lead, walk, cut, _⟩ := passes.exists_lead_split (Graph.keyed_trim g full)
  refine ⟨_, signal, draft, walk, fun v traversed reached plain outside => ?_⟩
  have hot : v ∈ passes.finished.draft.partition.hot.traversal := by
    rw [lead.partition] at outside ⊢
    exact cut.mem_hot traversed reached plain outside
  obtain ⟨m, stored, notInlined⟩ := lead.exists_hot cut hot
  obtain ⟨n, i, known, found, type, grows, made⟩ := lead.inletCodeMade stored notInlined
  refine ⟨n, i, known, m, _, found, type, grows, stored, made, fun inlet code coded => ?_⟩
  have placed := cut.inletPlaced lead.partition hot stored (Table.mem_keys_of_get? coded)
  have emitted := placed.emits passes.assembles lead.partition
  have own : (CodePart.inlet ⟨v, inlet⟩).code passes.finished.draft = code := by simp [CodePart.code, stored, coded]
  rwa [own] at emitted

/-- Both pieces of code of the filter are emitted. -/
theorem hot_inlet_code_emitted_tuned :
    ∃ result d, compile tunedPatch tunedRegistry {} = .ok result ∧
      (Compilation.run { graph := tunedPatch, registry := tunedRegistry, request := {} } .assemble).2.draft = some d ∧
      d.EmitsDsp result.symbols result.program (.ofCode "tune()") ∧
      d.EmitsDsp result.symbols result.program (.ofCode "widen()") := by
  obtain ⟨traversal, facts⟩ := tunedPatch_draft
  obtain ⟨result, compiled, order⟩ := map_eq_ok_iff.mp traversal
  obtain ⟨d, signal, draft, walk, emitted⟩ := hot_inlet_code_emitted compiled
  obtain ⟨_, plain, outside, _⟩ := facts d draft
  rw [order] at walk emitted
  cases walk.symm.trans tunedPatch_walk
  obtain ⟨n, i, known, m, fragments, found, registered, _, _, made, each⟩ :=
    emitted "filter" (by decide) (by decide) plain outside
  have type : ((tunedPatch.trim tunedTraversal).get? "filter").map Node.type = some "filter" := by decide +kernel
  rw [found] at type
  rw [show n.type = "filter" from Option.some.inj type, tunedRegistry, Registry.register, Table.get?_insert_self]
    at registered
  cases registered
  cases made
  exact ⟨result, d, compiled, draft, each "0" _ rfl, each "1" _ rfl⟩

/-- A node that carries a signal has a generator that makes code for an inlet, whatever it knows, and the program does not
    emit the code. -/
structure InletCodeLost (g : Graph) (r : Registry) (result : CompiledProgram) (d : Draft) (v inlet : String)
    (code : Sequence) : Prop where
  carries : ∃ signal, (g.trim result.traversal).signalTraversal (fun _ => true)
    (pulling (g.trim result.traversal) result.traversal) = .ok signal ∧ v ∈ signal
  made : ∃ n i, (g.trim result.traversal).get? v = some n ∧ inlet ∈ n.inlets.keys ∧ r.types.get? n.type = some i ∧
    ∀ context, ∃ fragments, i.inletDsp context = .ok fragments ∧ fragments.get? inlet = some code
  lost : ¬d.EmitsDsp result.symbols result.program code

/-- A half that wants something done whenever its source changes. -/
def refreshedHalf : Implementation where
  flags := ⟨true, true⟩
  loop := fun c => do return some (.ofCode ((← c.ins "0") ++ " * 0.5"))
  inletDsp := fun _ => .ok (.ofList [("0", .ofCode "refresh()")])

/-- A shaper that wants something done whenever its source changes. -/
def reshapedShape : Implementation where
  flags := ⟨true, false⟩
  inletDsp := fun _ => .ok (.ofList [("0", .ofCode "reshape()")])

def refreshedRegistry : Registry := (sampleRegistry.register "shape" reshapedShape).register "half" refreshedHalf

/-- The half is inlined and the shaper is cold, and nothing is left of the frame loop and of the function of the group. -/
private theorem samplePatch_draft :
    (compile samplePatch refreshedRegistry {}).map CompiledProgram.traversal = .ok sampleFull ∧
    ∀ d ∈ (Compilation.run { graph := samplePatch, registry := refreshedRegistry, request := {} } .assemble).2.draft,
      "half" ∈ d.inlinedIds ∧ (∃ c ∈ d.partition.cold, "shape" ∈ c.group.traversal) ∧
      d.hotBody.map (fun body => body.content.isEmpty) = .ok true ∧
      ∀ c ∈ d.partition.cold, (d.coldFunction c).map (fun f => f.body.content.isEmpty) = .ok true := by
  decide +kernel

/-- In the sample patch the half is inlined and the shaper is cold. Both carry signals to the output, and the inlet code of
    both is emitted nowhere. -/
theorem inlined_and_cold_inlet_code_lost :
    ∃ result d, compile samplePatch refreshedRegistry {} = .ok result ∧
      (Compilation.run { graph := samplePatch, registry := refreshedRegistry, request := {} } .assemble).2.draft = some d ∧
      "half" ∈ d.inlinedIds ∧ InletCodeLost samplePatch refreshedRegistry result d "half" "0" (.ofCode "refresh()") ∧
      (∃ c ∈ d.partition.cold, "shape" ∈ c.group.traversal) ∧
      InletCodeLost samplePatch refreshedRegistry result d "shape" "0" (.ofCode "reshape()") := by
  have walk : (samplePatch.trim sampleFull).signalTraversal (fun _ => true)
      (pulling (samplePatch.trim sampleFull) sampleFull) = .ok sampleFull := by
    decide +kernel
  have half : ((samplePatch.trim sampleFull).get? "half").map (fun n => (n.type, n.inlets.keys)) = some ("half", ["0"]) := by
    decide +kernel
  have shape : ((samplePatch.trim sampleFull).get? "shape").map (fun n => (n.type, n.inlets.keys)) =
      some ("shape", ["0"]) := by
    decide +kernel
  obtain ⟨traversal, facts⟩ := samplePatch_draft
  obtain ⟨result, compiled, order⟩ := map_eq_ok_iff.mp traversal
  obtain ⟨_, _, _, _, passes, _, draft⟩ := exists_passes compiled
  obtain ⟨inlined, cold, frame, groups⟩ := facts _ draft
  rw [← order] at half shape
  obtain ⟨n, foundHalf, readHalf⟩ := Option.map_eq_some_iff.mp half
  obtain ⟨m, foundShape, readShape⟩ := Option.map_eq_some_iff.mp shape
  obtain ⟨typeHalf, inletsHalf⟩ := Prod.mk.inj readHalf
  obtain ⟨typeShape, inletsShape⟩ := Prod.mk.inj readShape
  have registeredHalf : refreshedRegistry.types.get? n.type = some refreshedHalf := by
    rw [typeHalf]
    exact Table.get?_insert_self _ _ _
  have registeredShape : refreshedRegistry.types.get? m.type = some reshapedShape := by
    rw [typeShape]
    exact (Table.get?_insert_of_ne _ _ (by decide)).trans (Table.get?_insert_self _ _ _)
  have silent : ∀ code, (Sequence.ofElements code.content).content ≠ [] →
      ¬passes.finished.draft.EmitsDsp result.symbols result.program code := by
    rintro code visible (⟨loop, made, _, emits⟩ | ⟨c, listed, f, made, _, emits⟩)
    · obtain ⟨_, _, made⟩ := bind_eq_ok_iff.mp made
      obtain ⟨body, bodyMade, rest⟩ := bind_eq_ok_iff.mp made
      cases rest
      rw [bodyMade] at frame
      exact Sequence.not_emits_of_nil (List.isEmpty_iff.mp (Except.ok.inj frame)) visible emits
    · have group := groups c listed
      rw [made] at group
      exact Sequence.not_emits_of_nil (List.isEmpty_iff.mp (Except.ok.inj group)) visible emits
  refine ⟨result, _, compiled, draft, inlined, ⟨⟨sampleFull, order.symm ▸ walk, by decide⟩, ⟨n, _, foundHalf, ?_,
    registeredHalf, fun _ => ⟨_, rfl, rfl⟩⟩, silent _ (by decide +kernel)⟩, cold, ⟨⟨sampleFull, order.symm ▸ walk, by decide⟩,
    ⟨m, _, foundShape, ?_, registeredShape, fun _ => ⟨_, rfl, rfl⟩⟩, silent _ (by decide +kernel)⟩⟩
  · rw [inletsHalf]
    decide
  · rw [inletsShape]
    decide

end Draft
end DspPatch
