import DspPatch.Graph.Traversal
import DspPatch.Proofs.Draft.Portlets
import DspPatch.Proofs.Graph.Trim

/-!
Which mismatches of kinds are found when portlets are resolved. Resolving succeeds exactly if all names that it gives are
made of valid fragments and no connection leads from a message outlet to a signal inlet
(`Draft.resolvePortlets_ok_iff`). Both ends of such a connection are looked at. A connection from a signal outlet to a
message inlet is looked at from neither end: signal inlets check their sources, and message outlets their sinks.
-/
namespace DspPatch
namespace Graph
variable {g : Graph} {keep : List String}

/-- The source records the connection, which leads from an outlet of the first kind to an inlet of the second. -/
structure Joins (g : Graph) (c : Connection) (outlet inlet : PortletKind) : Prop where
  recorded : ∃ n, g.get? c.source.node = some n ∧ c.sink ∈ n.sinksOf c.source.portlet
  outletKind : g.outletKind? c.source = some outlet
  inletKind : g.inletKind? c.sink = some inlet

section Trim
variable (keyed : ∀ {key n}, g.get? key = some n → n.id = key)
include keyed

/-- Trimming leaves the portlets of kept nodes as they are. -/
theorem kinds_trim {e : Endpoint} (kept : e.node ∈ keep) :
    (g.trim keep).outletKind? e = g.outletKind? e ∧ (g.trim keep).inletKind? e = g.inletKind? e := by
  cases found : g.get? e.node with
  | none =>
    have missing : (g.trim keep).get? e.node = none := by
      rw [← Option.not_isSome_iff_eq_none, Option.isSome_iff_exists]
      rintro ⟨n, present⟩
      obtain ⟨full, earlier, _⟩ := (get?_trim keyed).mp present
      cases found.symm.trans earlier
    simp [outletKind?, inletKind?, found, missing]
  | some n =>
    have present : (g.trim keep).get? e.node = some (trimNode keep n) := (get?_trim keyed).mpr ⟨n, found, kept, rfl⟩
    simp [outletKind?, inletKind?, found, present, trimNode]

theorem joins_trim_iff {c : Connection} {outlet inlet : PortletKind} :
    (g.trim keep).Joins c outlet inlet ↔ g.Joins c outlet inlet ∧ c.source.node ∈ keep ∧ c.sink.node ∈ keep := by
  constructor
  · rintro ⟨⟨n, found, listed⟩, outletKind, inletKind⟩
    obtain ⟨full, present, kept, rfl⟩ := (get?_trim keyed).mp found
    rw [sinksOf_trimNode, List.mem_filter, decide_eq_true_eq] at listed
    rw [(kinds_trim keyed kept).1] at outletKind
    rw [(kinds_trim keyed listed.2).2] at inletKind
    exact ⟨⟨⟨full, present, listed.1⟩, outletKind, inletKind⟩, kept, listed.2⟩
  · rintro ⟨⟨⟨n, found, listed⟩, outletKind, inletKind⟩, sourceKept, sinkKept⟩
    refine ⟨⟨trimNode keep n, (get?_trim keyed).mpr ⟨n, found, sourceKept, rfl⟩, ?_⟩, ?_, ?_⟩
    · rw [sinksOf_trimNode, List.mem_filter, decide_eq_true_eq]
      exact ⟨listed, sinkKept⟩
    · rw [(kinds_trim keyed sourceKept).1, outletKind]
    · rw [(kinds_trim keyed sinkKept).2, inletKind]

theorem portletsKeyed_trim (keep : List String) (portletsKeyed : g.PortletsKeyed) : (g.trim keep).PortletsKeyed := by
  intro n member
  obtain ⟨key, found⟩ := Table.mem_values_iff.mp member
  obtain ⟨full, present, _, rfl⟩ := (get?_trim keyed).mp found
  exact portletsKeyed full (Table.mem_values_iff.mpr ⟨key, present⟩)

end Trim

/-- What the portlets of a node check of the other ends of their connections. -/
structure KindsRead (g : Graph) (n : Node) : Prop where
  sources : ∀ i ∈ n.inletsOf .signal, ∀ source ∈ n.sourcesOf i.id, g.outletKind? source = some .signal
  sinks : ∀ o ∈ n.outletsOf .message, ∀ sink ∈ n.sinksOf o.id, g.inletKind? sink = some .message

/-- The checks at both ends exclude the same connections. -/
theorem kindsRead_iff (mirrored : g.Mirrored) (keyed : g.PortletsKeyed) :
    (∀ id n, g.get? id = some n → g.KindsRead n) ↔ ∀ c, ¬g.Joins c .message .signal := by
  constructor
  · rintro all ⟨source, sink⟩ ⟨⟨n, found, listed⟩, outletKind, inletKind⟩
    obtain ⟨_, again, p, declared, kind⟩ := outletKind?_eq_some_iff.mp outletKind
    cases found.symm.trans again
    have own := keyed.outletId found declared
    have member : p ∈ n.outletsOf .message := (mem_portletsOf_iff (keyed.outletId found)).mpr ⟨own.symm ▸ declared, kind⟩
    have checked := (all _ n found).sinks p member sink (own.symm ▸ listed)
    cases checked.symm.trans inletKind
  · intro none id n found
    constructor
    · intro i member source listed
      obtain ⟨declared, kind⟩ := (mem_portletsOf_iff (keyed.inletId found)).mp member
      obtain ⟨origin, originFound, known⟩ := mirrored.sourceDeclared found i.id source listed
      obtain ⟨p, outlet⟩ := Table.mem_keys_iff.mp known
      have recorded : ⟨id, i.id⟩ ∈ origin.sinksOf source.portlet :=
        (mirrored.mirror originFound found source.portlet i.id).mpr listed
      have outletKind : g.outletKind? source = some p.kind :=
        outletKind?_eq_some_iff.mpr ⟨origin, originFound, p, outlet, rfl⟩
      have inletKind : g.inletKind? ⟨id, i.id⟩ = some .signal :=
        inletKind?_eq_some_iff.mpr ⟨n, found, i, declared, kind⟩
      cases isKind : p.kind with
      | signal => rw [outletKind, isKind]
      | message => exact absurd ⟨⟨origin, originFound, recorded⟩, isKind ▸ outletKind, inletKind⟩ (none ⟨source, ⟨id, i.id⟩⟩)
    · intro o member sink listed
      obtain ⟨declared, kind⟩ := (mem_portletsOf_iff (keyed.outletId found)).mp member
      obtain ⟨target, targetFound, known⟩ := mirrored.sinkDeclared found o.id sink listed
      obtain ⟨q, inlet⟩ := Table.mem_keys_iff.mp known
      have outletKind : g.outletKind? ⟨id, o.id⟩ = some .message :=
        outletKind?_eq_some_iff.mpr ⟨n, found, o, declared, kind⟩
      have inletKind : g.inletKind? sink = some q.kind :=
        inletKind?_eq_some_iff.mpr ⟨target, targetFound, q, inlet, rfl⟩
      cases isKind : q.kind with
      | message => rw [inletKind, isKind]
      | signal => exact absurd ⟨⟨n, found, listed⟩, outletKind, isKind ▸ inletKind⟩ (none ⟨⟨id, o.id⟩, sink⟩)

end Graph

namespace Symbols
variable {s : Symbols}

theorem checkPart_exact (part : String) :
    Yields (checkPart part) (fun _ => Text.isNamePart part = true) (fun _ => ¬Text.isNamePart part = true) := by
  unfold checkPart
  by_cases valid : Text.isNamePart part = true
  · rw [if_pos valid]
    exact valid
  · rw [if_neg valid]
    exact valid

/-- A portlet of a node with symbols gets its symbol exactly if its id is a name fragment. -/
theorem attachPortlet_exact {id : String} (covered : s.at? (.state id) ≠ none) (slot : PortletSlot) (portlet : String) :
    Yields (s.attachPortlet slot id portlet) (fun named => s.Grows named.2 ∧ Text.isNamePart portlet = true)
      (fun _ => ¬Text.isNamePart portlet = true) := by
  have exact : Yields (s.attachPortlet slot id portlet) (fun _ => Text.isNamePart portlet = true)
      (fun _ => ¬Text.isNamePart portlet = true) := by
    refine Yields.bind (checkPart_exact portlet) (fun _ valid => ?_)
    obtain ⟨ns, _, found⟩ := Draft.node_symbols_eq_ok covered
    rw [assignPortlet, found]
    exact valid
  refine ((s.attachPortlet_yields slot id portlet).and exact).mono (fun _ both => ?_) (fun _ both => both.2)
  exact ⟨both.1.grows, both.2⟩

theorem checkParts_exact {α : Type} {id key : String} (named : Text.isNamePart id = true) (value : α) :
    Yields (do checkPart id; checkPart key; return value) (fun _ => Text.isNamePart key = true)
      (fun _ => ¬Text.isNamePart key = true) := by
  refine Yields.bind ((checkPart_exact id).mono (fun _ _ => trivial) (fun _ invalid => absurd named invalid)) (fun _ _ => ?_)
  exact Yields.bind (checkPart_exact key) (fun _ valid => valid)

theorem attachListener_exact {id : String} (named : Text.isNamePart id = true) (outlet : String) :
    Yields (s.attachListener id outlet) (fun named => s.Grows named.2 ∧ Text.isNamePart outlet = true)
      (fun _ => ¬Text.isNamePart outlet = true) := by
  refine ((s.attachListener_yields id outlet).and (checkParts_exact named _)).mono (fun _ both => ?_) (fun _ both => both.2)
  exact ⟨both.1.grows, both.2⟩

theorem attachCaller_exact {id : String} (named : Text.isNamePart id = true) (inlet : String) :
    Yields (s.attachCaller id inlet) (fun named => s.Grows named.2 ∧ Text.isNamePart inlet = true)
      (fun _ => ¬Text.isNamePart inlet = true) := by
  refine ((s.attachCaller_yields id inlet).and (checkParts_exact named _)).mono (fun _ both => ?_) (fun _ both => both.2)
  exact ⟨both.1.grows, both.2⟩

theorem isNamePart_of_ofGraph {g : Graph} {debug : Bool} (made : ofGraph g debug = .ok s) {n : Node}
    (member : n ∈ g.nodes.values) : Text.isNamePart n.id = true := by
  obtain ⟨checked, _⟩ := then_eq_ok_iff.mp made
  exact (checkPart_exact n.id).of_eq_ok (forM_eq_ok_iff.mp checked n member)

end Symbols

/-- All items of a list have results exactly if each one has. -/
theorem Yields.mapM_exact {ε α β : Type} {f : α → Except ε β} {items : List α} {good : α → Prop}
    (each : ∀ a ∈ items, Yields (f a) (fun _ => good a) (fun _ => ¬good a)) :
    Yields (items.mapM f) (fun _ => ∀ a ∈ items, good a) (fun _ => ¬∀ a ∈ items, good a) := by
  have related : Yields (items.mapM f) (List.Forall₂ (fun a _ => good a) items) (fun _ => ¬∀ a ∈ items, good a) :=
    Yields.mapM (fun a member => (each a member).mono (fun _ holds => holds) (fun _ fails all => fails (all a member)))
  refine related.mono (fun _ all a member => ?_) (fun _ fails => fails)
  obtain ⟨_, _, holds⟩ := exists_right_of_forall₂ all member
  exact holds

namespace Draft
open Build
variable {input : BuildInput} {w : Workspace} {id : String} {n : Node}

/-- The fragments that the names of a node's portlets are made with. -/
def portletParts (input : BuildInput) (id : String) (n : Node) : List String :=
  let called := (input.settings.inletCallers.get? id).getD []
  (n.outletsOf .signal).map Portlet.id ++
    (((n.inletsOf .message).filter (fun inlet => receives called n inlet.id)).map Portlet.id ++
      ((input.settings.outletListeners.get? id).getD [] ++ called))

theorem namePortlets_decides (found : input.graph.get? id = some n) (covered : w.symbols.at? (.state id) ≠ none)
    (named : Text.isNamePart id = true) :
    Decides (namePortlets input id) w (∀ part ∈ portletParts input id n, Text.isNamePart part = true) := by
  simp only [portletParts, List.forall_mem_append, List.forall_mem_map]
  refine Ends.lift_bind ?_
  rw [Graph.node_eq_ok_iff.mpr found]
  refine Decides.bind (Decides.forM (fun o : Portlet => Text.isNamePart o.id = true) (fun o _ now grows => ?_)) (fun w₁ grows₁ => ?_)
  · refine Ends.name_bind ((Symbols.attachPortlet_exact (grows.present covered) .outs o.id).mono ?_ (fun _ bad => bad))
    exact fun _ given => Ends.modifyNode given
  refine Decides.bind (Decides.forM (fun i : Portlet => Text.isNamePart i.id = true) (fun i _ now grows => ?_)) (fun w₂ grows₂ => ?_)
  · exact Decides.name (Symbols.attachPortlet_exact ((grows₁.trans grows).present covered) .rcvs i.id)
  refine Decides.bind (Decides.forM (fun outlet => Text.isNamePart outlet = true) (fun outlet _ now _ => ?_)) (fun w₃ _ => ?_)
  · exact Decides.name (Symbols.attachListener_exact named outlet)
  exact Decides.forM (fun inlet => Text.isNamePart inlet = true) (fun inlet _ now _ =>
    Decides.name (Symbols.attachCaller_exact named inlet))

/-- Once all portlets are named, those of a node can be connected exactly if the kinds that they check are right. -/
theorem wirePortlets_decides (mirrored : input.graph.Mirrored) (keyed : input.graph.PortletsKeyed)
    (named : AllNamed input w.symbols) (found : input.graph.get? id = some n) :
    Decides (wirePortlets input id) w (input.graph.KindsRead n) := by
  refine Decides.congr (p := (∀ i ∈ n.inletsOf .signal, ∀ source ∈ n.sourcesOf i.id,
    input.graph.outletKind? source = some .signal) ∧ ∀ o ∈ n.outletsOf .message, ∀ sink ∈ n.sinksOf o.id,
      input.graph.inletKind? sink = some .message) ?_ ⟨fun all => ⟨all.1, all.2⟩, fun all => ⟨all.1, all.2⟩⟩
  have namedNow {now : Workspace} (grows : w.symbols.Grows now.symbols) : AllNamed input now.symbols :=
    fun other m otherFound => (named other m otherFound).mono grows
  refine Ends.lift_bind ?_
  rw [Graph.node_eq_ok_iff.mpr found]
  refine Decides.bind (Decides.forM _ (fun i _ now grows => ?_)) (fun between grows =>
    Decides.forM _ (fun o _ now growsNext => ?_))
  · have terms := Yields.mapM_exact (fun source (_ : source ∈ n.sourcesOf i.id) =>
      sourceTerm_exact keyed (namedNow grows) n i.id source)
    refine Ends.symbols_bind (Ends.lift_bind (Yields.bind (terms.mono (fun _ good => good) (fun _ bad => bad)) ?_))
    intro terms good
    exact Yields.of_ok rfl (Ends.modifyNode ⟨.refl _, good⟩)
  · have receivers := Yields.mapM_exact (fun sink (listed : sink ∈ n.sinksOf o.id) =>
      sinkReceiver_exact mirrored keyed (namedNow (grows.trans growsNext)) found listed)
    refine Ends.symbols_bind (Ends.lift_bind (Yields.bind (receivers.mono (fun _ good => good) (fun _ bad => bad)) ?_))
    intro receivers good
    exact Yields.of_ok rfl (Ends.modifyNode ⟨.refl _, good⟩)

/-- Resolving the portlets of a graph succeeds exactly if all names are valid and the kinds that portlets check are
    right. -/
theorem resolvePortlets_decides (mirrored : input.graph.Mirrored) (keyed : input.graph.PortletsKeyed) {full : List String}
    (started : Started input.graph full w.draft) (complete : ∀ id n, input.graph.get? id = some n → id ∈ full)
    (covers : Covers w.symbols input.graph)
    (named : ∀ id n, input.graph.get? id = some n → Text.isNamePart id = true) :
    Decides (resolvePortlets input) w
      ((∀ id n, input.graph.get? id = some n → ∀ part ∈ portletParts input id n, Text.isNamePart part = true) ∧
        ∀ id n, input.graph.get? id = some n → input.graph.KindsRead n) := by
  have present : ∀ id ∈ w.draft.nodes.keys, ∃ n, input.graph.get? id = some n := by
    intro id member
    obtain ⟨m, stored⟩ := Table.mem_keys_iff.mp member
    obtain ⟨n, found, _⟩ := started.nodes id m stored
    exact ⟨n, found⟩
  have staged : ∀ m ∈ w.draft.nodes.values, m.stage = .untouched := by
    intro m member
    obtain ⟨id, stored⟩ := Table.mem_values_iff.mp member
    obtain ⟨n, _, rfl⟩ := started.nodes id m stored
    rfl
  have listed {id : String} {n : Node} (found : input.graph.get? id = some n) : id ∈ w.draft.nodes.keys :=
    (started.keys id).mpr (complete id n found)
  have each (p : String → Node → Prop) : (∀ id ∈ w.draft.nodes.keys, ∀ n, input.graph.get? id = some n → p id n) ↔
      ∀ id n, input.graph.get? id = some n → p id n :=
    ⟨fun all id n found => all id (listed found) n found, fun all id _ n found => all id n found⟩
  have one (p : Node → Prop) {id : String} {n : Node} (found : input.graph.get? id = some n) :
      p n ↔ ∀ m, input.graph.get? id = some m → p m := by
    refine ⟨fun holds m again => ?_, fun all => all n found⟩
    cases found.symm.trans again
    exact holds
  rw [← each, ← each]
  refine Decides.pass staged (Ends.nodeIds_bind (Decides.bind_ends (Decides.forM _ ?_)
    ((nameAll_ends present).mono (fun _ _ ended => ended) (fun _ _ => trivial)) ?_))
  · intro id member now grows
    obtain ⟨n, found⟩ := present id member
    refine (namePortlets_decides found (grows.present (covers id n found)) (named id n found)).congr ?_
    exact one (fun m => ∀ part ∈ portletParts input id m, Text.isNamePart part = true) found
  · rintro between _ ⟨_, ⟨_, allNamed⟩, changed⟩
    refine Ends.nodeIds_bind ?_
    rw [changed.keys]
    refine Decides.forM _ (fun id member now grows => ?_)
    obtain ⟨n, found⟩ := present id member
    refine (wirePortlets_decides mirrored keyed (fun other m otherFound => ?_) found).congr (one _ found)
    exact (allNamed other (listed otherFound) m otherFound).mono grows

/-- Let a graph be accepted, with its portlets under their ids, and resolve the portlets of the nodes of a traversal, with
    fresh symbols and a fresh draft. This succeeds exactly if the names that are given are made of valid fragments and no
    connection between the nodes leads from a message outlet to a signal inlet. So after a success all connections between
    the nodes are of one kind at both ends exactly if none leads from a signal outlet to a message inlet. -/
theorem resolvePortlets_ok_iff {g : Graph} (accepted : g.checkIntegrity = .ok ()) (keyed : g.PortletsKeyed) (r : Registry)
    (s : Settings) {full : List String} {debug : Bool} {symbols : Symbols} {d : Draft}
    (made : Symbols.ofGraph (g.trim full) debug = .ok symbols) (started : Draft.start (g.trim full) full = .ok d) :
    (((resolvePortlets ⟨g.trim full, r, s⟩).run.run ⟨symbols, d⟩).1 = .ok () ↔
      (∀ id n, (g.trim full).get? id = some n →
        ∀ part ∈ portletParts ⟨g.trim full, r, s⟩ id n, Text.isNamePart part = true) ∧
      ∀ c, c.source.node ∈ full → c.sink.node ∈ full → ¬g.Joins c .message .signal) ∧
    (((resolvePortlets ⟨g.trim full, r, s⟩).run.run ⟨symbols, d⟩).1 = .ok () →
      ((∀ c outlet inlet, c.source.node ∈ full → c.sink.node ∈ full → g.Joins c outlet inlet → outlet = inlet) ↔
        ∀ c, c.source.node ∈ full → c.sink.node ∈ full → ¬g.Joins c .signal .message)) := by
  have mirrored := Graph.checkIntegrity_eq_ok_iff.mp accepted
  have initial := (Symbols.ofGraph_yields _ _).of_eq_ok made
  have trimmed := Graph.mirrored_trim mirrored full
  have complete (id : String) (n : Node) (found : (g.trim full).get? id = some n) : id ∈ full := by
    obtain ⟨_, _, kept, _⟩ := (Graph.get?_trim mirrored.keyed).mp found
    exact kept
  have named (id : String) (n : Node) (found : (g.trim full).get? id = some n) : Text.isNamePart id = true := by
    rw [← trimmed.keyed found]
    exact Symbols.isNamePart_of_ofGraph made (Table.mem_values_iff.mpr ⟨id, found⟩)
  have trimmedKeyed := Graph.portletsKeyed_trim mirrored.keyed full keyed
  have decides : Build.Decides (resolvePortlets ⟨g.trim full, r, s⟩) ⟨symbols, d⟩ _ :=
    resolvePortlets_decides trimmed trimmedKeyed ((start_yields _ _).of_eq_ok started) complete
      (fun id n found => initial.covers id n found (trimmed.keyed found)) named
  have checked : (∀ id n, (g.trim full).get? id = some n → (g.trim full).KindsRead n) ↔
      ∀ c, c.source.node ∈ full → c.sink.node ∈ full → ¬g.Joins c .message .signal := by
    rw [Graph.kindsRead_iff trimmed trimmedKeyed]
    simp only [Graph.joins_trim_iff mirrored.keyed]
    exact forall_congr' (fun c => ⟨fun none source sink joins => none ⟨joins, source, sink⟩,
      fun none joins => none joins.2.1 joins.2.2 joins.1⟩)
  have success := decides.run_ok_iff.trans (and_congr_right' checked)
  refine ⟨success, fun resolved => ⟨fun same c source sink joins => ?_, fun none c outlet inlet source sink joins => ?_⟩⟩
  · cases same c .signal .message source sink joins
  · cases outlet with
    | signal =>
      cases inlet with
      | signal => rfl
      | message => exact absurd joins (none c source sink)
    | message =>
      cases inlet with
      | signal => exact absurd joins ((success.mp resolved).2 c source sink)
      | message => rfl

/-- An oscillator whose signal is connected to a message inlet. -/
def tappedPatch : Graph := [
  { (Node.bare "osc" "osc~").withOutlet "0" .signal with
    sinks := .ofList [("0", [⟨"print", "0"⟩])], isPullingSignal := true },
  { (Node.bare "print" "print").withInlet "0" .message with
    sources := .ofList [("0", [⟨"osc", "0"⟩])], isPushingMessages := true }].foldl Graph.insert .empty

def tappedInput : BuildInput := ⟨tappedPatch.trim ["osc", "print"], .empty, {}⟩

def tappedStart : Workspace :=
  ⟨(Symbols.ofGraph tappedInput.graph false).toOption.getD ⟨∅, ∅, ∅, .empty "", ∅, ∅⟩,
   (Draft.start tappedInput.graph ["osc", "print"]).toOption.getD ⟨∅, ∅, .empty, .start [], []⟩⟩

/-- The portlets of the patch are resolved although its connection joins portlets of different kinds. -/
theorem resolvePortlets_ok_iff_tapped :
    tappedPatch.checkIntegrity = .ok () ∧ tappedPatch.PortletsKeyed ∧ tappedPatch.fullTraversal [] = .ok ["osc", "print"] ∧
    ((resolvePortlets tappedInput).run.run tappedStart).1 = .ok () ∧
    tappedPatch.Joins ⟨⟨"osc", "0"⟩, ⟨"print", "0"⟩⟩ .signal .message ∧
    ¬∀ c outlet inlet, c.source.node ∈ ["osc", "print"] → c.sink.node ∈ ["osc", "print"] →
      tappedPatch.Joins c outlet inlet → outlet = inlet := by
  have accepted : tappedPatch.checkIntegrity = .ok () := by decide +kernel
  have keyed : tappedPatch.PortletsKeyed := by decide +kernel
  have allocated : Symbols.ofGraph tappedInput.graph false = .ok tappedStart.symbols :=
    eq_ok_getD (by decide +kernel) ⟨∅, ∅, ∅, .empty "", ∅, ∅⟩
  have started : Draft.start tappedInput.graph ["osc", "print"] = .ok tappedStart.draft :=
    eq_ok_getD (by decide +kernel) ⟨∅, ∅, .empty, .start [], []⟩
  have resolved : ((resolvePortlets tappedInput).run.run tappedStart).1 = .ok () := by decide +kernel
  have recorded : (tappedPatch.get? "osc").map (fun n => n.sinksOf "0") = some [⟨"print", "0"⟩] := by decide +kernel
  obtain ⟨osc, found, sinks⟩ := Option.map_eq_some_iff.mp recorded
  have joins : tappedPatch.Joins ⟨⟨"osc", "0"⟩, ⟨"print", "0"⟩⟩ .signal .message :=
    ⟨⟨osc, found, by simp [sinks]⟩, by decide +kernel, by decide +kernel⟩
  have exact := (resolvePortlets_ok_iff accepted keyed .empty {} allocated started).2 resolved
  exact ⟨accepted, keyed, by decide +kernel, resolved, joins, fun same =>
    exact.mp same ⟨⟨"osc", "0"⟩, ⟨"print", "0"⟩⟩ (by decide) (by decide) joins⟩

end Draft
end DspPatch
