import DspPatch.Proofs.Graph.TrimmedWalk
import DspPatch.Proofs.Order
import DspPatch.Proofs.Settings

/-!
The signal inputs of the nodes that run. The signal walk lists the inputs of every node it lists, but what the message
walk adds it finds along messages alone: a node that runs only because messages reach it may have an input that does not
run, or that runs after it. Both walks list exactly what they can reach, so it can be said which inputs are kept and in
order (`signal_inputs_kept_iff`). Only what the check of a graph promises is used; the two ends of a connection may be of
different kinds.
-/
namespace DspPatch.Graph
open Relation
variable {g : Graph}

/-- `u` is recorded as a source of a signal inlet of `v`. -/
def SignalInput (g : Graph) (u v : String) : Prop :=
  ∃ n inlet p, g.get? v = some n ∧ n.inlets.get? inlet = some p ∧ p.kind = .signal ∧
    ∃ source ∈ n.sourcesOf inlet, source.node = u

/-- A pulling node depends on `v` through signal inputs, or is `v`. -/
def Demanded (g : Graph) (v : String) : Prop :=
  ∃ root n, g.get? root = some n ∧ n.isPullingSignal = true ∧ ReflTransGen g.SignalInput v root

/-- Messages come to `v` from a node that pushes them or that the host calls, or `v` is one. -/
def Messaged (g : Graph) (callers : List String) (v : String) : Prop :=
  ∃ root, ((∃ n, g.get? root = some n ∧ n.isPushingMessages = true) ∨ root ∈ callers) ∧ ReflTransGen g.SendsTo root v

theorem Demanded.input {u v : String} (demanded : g.Demanded v) (input : g.SignalInput u v) : g.Demanded u := by
  obtain ⟨root, n, found, pulls, chain⟩ := demanded
  exact ⟨root, n, found, pulls, .head input chain⟩

/-- The walk goes on to the signal inputs of a node. -/
theorem explores_iff_signalInput (mirrored : g.Mirrored) {u v : String} :
    g.Explores (fun _ => true) v u ↔ g.SignalInput u v := by
  constructor
  · rintro ⟨n, list, inlet, found, _, read, member⟩
    obtain ⟨inlet, p, input⟩ := (exists_mem_signalSources_iff read).mp ⟨inlet, member⟩
    exact ⟨n, inlet, p, found, input⟩
  · rintro ⟨n, inlet, p, found, input⟩
    obtain ⟨list, read⟩ := exists_signalSources_iff.mpr (mirrored.inletDeclared found)
    obtain ⟨inlet, member⟩ := (exists_mem_signalSources_iff read).mpr ⟨inlet, p, input⟩
    exact ⟨n, list, inlet, found, rfl, read, member⟩

/-- In a mirrored graph the signal walk succeeds, and it lists what is demanded. -/
theorem signalTraversal_mirrored (mirrored : g.Mirrored) :
    ∃ signal, g.signalTraversal (fun _ => true) g.pullingIds = .ok signal ∧
      g.SignalOrder (fun _ => true) g.pullingIds signal ∧ ∀ v, v ∈ signal ↔ g.Demanded v := by
  have swapped : g.Explores (fun _ => true) = Function.swap g.SignalInput := by
    funext v u
    exact propext (explores_iff_signalInput mirrored)
  have outcome : Yields (g.signalTraversal (fun _ => true) g.pullingIds)
      (g.SignalOrder (fun _ => true) g.pullingIds) (fun _ => False) := by
    refine (signalTraversal_yields mirrored.keyed _ _).mono (fun _ post => post) ?_
    rintro _ ⟨root, member, missing | ⟨v, _, faulty⟩⟩
    · obtain ⟨n, found, _⟩ := (mem_pullingIds_iff mirrored.keyed).mp member
      cases missing.symm.trans found
    · exact mirrored.not_faulty faulty
  obtain ⟨signal, result, order⟩ := outcome.exists_ok
  refine ⟨signal, result, order, fun v => ?_⟩
  rw [order.mem_iff, swapped]
  simp only [mem_pullingIds_iff mirrored.keyed, reflTransGen_swap]
  constructor
  · rintro ⟨root, ⟨n, found, pulls⟩, chain⟩
    exact ⟨root, n, found, pulls, chain⟩
  · rintro ⟨root, n, found, pulls, chain⟩
    exact ⟨root, ⟨n, found, pulls⟩, chain⟩

/-- The nodes from which the message walk of a full traversal starts. -/
def messageRoots (g : Graph) (callers : List String) : List String :=
  g.pushingIds ++ callers.filter (fun id => id ∉ g.pushingIds)

theorem mem_messageRoots_iff (keyed : ∀ {key n}, g.get? key = some n → n.id = key) {callers : List String} {id : String} :
    id ∈ g.messageRoots callers ↔ (∃ n, g.get? id = some n ∧ n.isPushingMessages = true) ∨ id ∈ callers := by
  rw [messageRoots, List.mem_append, List.mem_filter, decide_eq_true_eq, ← mem_pushingIds_iff keyed]
  tauto

/-- What the two walks of a full traversal list. -/
structure Walks (g : Graph) (callers signal message : List String) : Prop where
  signalOrder : g.SignalOrder (fun _ => true) g.pullingIds signal
  demanded : ∀ v, v ∈ signal ↔ g.Demanded v
  messaged : ∀ v, v ∈ message ↔ g.Messaged callers v

/-- In a mirrored graph the full traversal succeeds if the nodes that the host calls exist. -/
theorem fullTraversal_mirrored (mirrored : g.Mirrored) {callers : List String}
    (present : ∀ id ∈ callers, ∃ n, g.get? id = some n) :
    ∃ signal message, g.fullTraversal callers = .ok (signal ++ message.filter (fun id => id ∉ signal)) ∧
      g.messageTraversal (g.messageRoots callers) = .ok message ∧ g.Walks callers signal message := by
  obtain ⟨signal, signalWalk, signalOrder, demanded⟩ := signalTraversal_mirrored mirrored
  have rootsPresent : ∀ root ∈ g.messageRoots callers, ∃ n, g.get? root = some n := by
    intro root member
    rcases (mem_messageRoots_iff mirrored.keyed).mp member with ⟨n, found, _⟩ | called
    · exact ⟨n, found⟩
    · exact present root called
  obtain ⟨message, messageWalk, messageOrder⟩ := messageTraversal_mirrored mirrored rootsPresent
  refine ⟨signal, message, fullTraversal_eq_ok_iff.mpr ⟨present, signal, message, signalWalk, messageWalk, rfl⟩,
    messageWalk, signalOrder, demanded, fun v => ?_⟩
  rw [messageOrder.mem_iff]
  simp only [mem_messageRoots_iff mirrored.keyed, Messaged]

namespace Walks
variable {callers signal message : List String} {u v : String}

theorem mem_full_iff (walks : g.Walks callers signal message) :
    v ∈ signal ++ message.filter (fun id => id ∉ signal) ↔ g.Demanded v ∨ g.Messaged callers v := by
  rw [List.mem_append, List.mem_filter, decide_eq_true_eq, walks.demanded, walks.messaged]
  tauto

/-- Signal inputs of demanded nodes come before them, unless they depend on them. -/
theorem before_of_demanded (walks : g.Walks callers signal message) (mirrored : g.Mirrored) (demanded : g.Demanded v)
    (input : g.SignalInput u v) : [u, v].Sublist signal ∨ TransGen g.SignalInput v u := by
  have explores := (explores_iff_signalInput mirrored).mpr input
  refine (walks.signalOrder.sourcesFirst v ((walks.demanded v).mpr demanded) u explores).imp_right (fun chain => ?_)
  rcases reflTransGen_iff_eq_or_transGen.mp chain with rfl | chain
  · exact .single input
  · exact TransGen.mono (fun _ _ step => (explores_iff_signalInput mirrored).mp step.1) _ _ chain

/-- Nodes that are not demanded stand in the order of the message walk. -/
theorem before_iff_message (uOutside : u ∉ signal) (vOutside : v ∉ signal) :
    [u, v].Sublist (signal ++ message.filter (fun id => id ∉ signal)) ↔ [u, v].Sublist message := by
  constructor
  · intro before
    obtain ⟨first, rest, split, inSignal, inRest⟩ := List.sublist_append_iff.mp before
    cases first with
    | nil =>
      cases split
      exact inRest.trans List.filter_sublist
    | cons head tail =>
      obtain rfl := (List.cons.inj split).1
      exact absurd (inSignal.subset List.mem_cons_self) uOutside
  · intro before
    refine (pair_sublist_filter_iff.mpr ⟨before, ?_, ?_⟩).trans (List.sublist_append_right _ _)
    · exact decide_eq_true uOutside
    · exact decide_eq_true vOutside

/-- Of a node that runs, a signal input is kept and in its place exactly if one of the two is demanded, or if the message
    walk lists both as it should. -/
theorem kept_iff (walks : g.Walks callers signal message) (mirrored : g.Mirrored) (input : g.SignalInput u v)
    (runs : v ∈ signal ++ message.filter (fun id => id ∉ signal)) :
    (u ∈ signal ++ message.filter (fun id => id ∉ signal) ∧
      ([u, v].Sublist (signal ++ message.filter (fun id => id ∉ signal)) ∨ TransGen g.SignalInput v u)) ↔
    g.Demanded v ∨ g.Demanded u ∨ u ∈ message ∧ ([u, v].Sublist message ∨ TransGen g.SignalInput v u) := by
  by_cases vDemanded : g.Demanded v
  · have uListed := (walks.demanded u).mpr (vDemanded.input input)
    refine iff_of_true ⟨List.mem_append_left _ uListed, ?_⟩ (.inl vDemanded)
    exact (walks.before_of_demanded mirrored vDemanded input).imp_left
      (fun before => before.trans (List.sublist_append_left _ _))
  have vOutside : v ∉ signal := fun listed => vDemanded ((walks.demanded v).mp listed)
  by_cases uDemanded : g.Demanded u
  · have uListed := (walks.demanded u).mpr uDemanded
    have vRest := (List.mem_append.mp runs).resolve_left vOutside
    refine iff_of_true ⟨List.mem_append_left _ uListed, .inl ?_⟩ (.inr (.inl uDemanded))
    exact List.Sublist.append (List.singleton_sublist.mpr uListed) (List.singleton_sublist.mpr vRest)
  have uOutside : u ∉ signal := fun listed => uDemanded ((walks.demanded u).mp listed)
  rw [before_iff_message uOutside vOutside, walks.mem_full_iff, walks.messaged]
  simp only [vDemanded, uDemanded, false_or]

end Walks

/-- What the two walks of an accepted patch list, and which signal inputs of the nodes that run are kept and in their
    place. -/
theorem signal_inputs_kept_iff {s : Settings} (accepted : g.checkIntegrity = .ok ())
    (fitting : s.checkPortlets g = .ok ()) :
    ∃ full message, g.fullTraversal s.inletCallers.keys = .ok full ∧
      g.messageTraversal (g.messageRoots s.inletCallers.keys) = .ok message ∧
      (∀ v, v ∈ full ↔ g.Demanded v ∨ g.Messaged s.inletCallers.keys v) ∧
      (∀ v, v ∈ message ↔ g.Messaged s.inletCallers.keys v) ∧
      ∀ v ∈ full, ∀ u, g.SignalInput u v →
        (u ∈ full ∧ ([u, v].Sublist full ∨ TransGen g.SignalInput v u) ↔
          g.Demanded v ∨ g.Demanded u ∨ u ∈ message ∧ ([u, v].Sublist message ∨ TransGen g.SignalInput v u)) := by
  have mirrored := checkIntegrity_eq_ok_iff.mp accepted
  have present : ∀ id ∈ s.inletCallers.keys, ∃ n, g.get? id = some n := by
    intro id member
    obtain ⟨entry, listed, rfl⟩ := List.mem_map.mp member
    obtain ⟨n, found, _⟩ := PortletSpec.check_eq_ok_iff.mp (then_eq_ok_iff.mp fitting).1 entry listed
    exact ⟨n, found⟩
  obtain ⟨signal, message, walked, messageWalk, walks⟩ := fullTraversal_mirrored mirrored present
  exact ⟨_, message, walked, messageWalk, fun v => walks.mem_full_iff, walks.messaged,
    fun v runs u input => walks.kept_iff mirrored input runs⟩

/-- A meter that reports the level of an oscillator by messages. -/
def meterPatch : Graph := [
  { Node.bare "osc" "osc" with
    outlets := .ofList [("0", ⟨"0", .signal⟩)], sinks := .ofList [("0", [⟨"meter", "0"⟩])] },
  { Node.bare "meter" "meter" with
    inlets := .ofList [("0", ⟨"0", .signal⟩)], sources := .ofList [("0", [⟨"osc", "0"⟩])]
    isPushingMessages := true }].foldl Graph.insert .empty

/-- The meter runs without its oscillator, which nothing demands and no message reaches. -/
theorem signal_inputs_kept_iff_meter :
    meterPatch.checkIntegrity = .ok () ∧ ({} : Settings).checkPortlets meterPatch = .ok () ∧
    meterPatch.fullTraversal [] = .ok ["meter"] ∧ meterPatch.SignalInput "osc" "meter" ∧
    ¬meterPatch.Demanded "meter" ∧ ¬meterPatch.Demanded "osc" ∧ ¬meterPatch.Messaged [] "osc" := by
  have accepted : meterPatch.checkIntegrity = .ok () := by decide +kernel
  have fitting : ({} : Settings).checkPortlets meterPatch = .ok () := by decide +kernel
  have traversal : meterPatch.fullTraversal [] = .ok ["meter"] := by decide +kernel
  have input : meterPatch.SignalInput "osc" "meter" :=
    ⟨_, "0", _, rfl, rfl, rfl, ⟨"osc", "0"⟩, by decide +kernel, rfl⟩
  obtain ⟨full, message, walked, _, runs, _, kept⟩ := signal_inputs_kept_iff accepted fitting
  cases Except.ok.inj (traversal.symm.trans walked)
  have dropped : ¬(meterPatch.Demanded "osc" ∨ meterPatch.Messaged [] "osc") :=
    fun demanded => absurd ((runs "osc").mpr demanded) (by decide)
  have undemanded : ¬meterPatch.Demanded "meter" := by
    intro demanded
    have listed := ((kept "meter" (by decide) "osc" input).mpr (.inl demanded)).1
    exact absurd listed (by decide)
  rw [not_or] at dropped
  exact ⟨accepted, fitting, traversal, input, undemanded, dropped.1, dropped.2⟩

end DspPatch.Graph
