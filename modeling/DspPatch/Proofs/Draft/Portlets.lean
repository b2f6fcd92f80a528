import DspPatch.Draft.Portlets
import DspPatch.Proofs.Build
import DspPatch.Proofs.Graph.Connections
import DspPatch.Proofs.Symbols

/-!
What resolving the portlets achieves. Afterwards every signal outlet has a variable, every message inlet that can receive
a message has a receiver, and every message outlet has the list of those who listen to it. In a well-formed graph whose
nodes all have symbols nothing can fail but a name.
-/
namespace DspPatch.Draft
open Build
variable {input : BuildInput} {w : Workspace}

theorem node_eq_ok_iff {d : Draft} {id : String} {m : NodeDraft} : d.node id = .ok m ↔ d.nodes.get? id = some m := by
  unfold Draft.node
  cases d.nodes.get? id <;> simp

theorem context_eq_ok {d : Draft} {id : String} {n : Node} {m : NodeDraft} (symbols : Symbols)
    (found : input.graph.get? id = some n) (stored : d.nodes.get? id = some m) :
    input.context symbols d id = .ok ⟨n, symbols, input.settings, m.signalIns⟩ := by
  rw [BuildInput.context, Graph.node_eq_ok_iff.mpr found, node_eq_ok_iff.mpr stored]
  rfl

theorem node_symbols_eq_ok {s : Symbols} {id : String} (present : s.at? (.state id) ≠ none) :
    ∃ ns, s.nodes.get? id = some ns ∧ s.node id = .ok ns := by
  simp only [Symbols.at?, ne_eq, Option.map_eq_none_iff] at present
  obtain ⟨ns, found⟩ := Option.ne_none_iff_exists'.mp present
  exact ⟨ns, found, by rw [Symbols.node, found]⟩

/-- Every node of the graph has symbols. -/
def Covers (s : Symbols) (g : Graph) : Prop := ∀ id n, g.get? id = some n → s.at? (.state id) ≠ none

theorem Covers.mono {s t : Symbols} {g : Graph} (covers : Covers s g) (grows : s.Grows t) : Covers t g := by
  intro id n found
  exact grows.present (covers id n found)

/-- The portlets of a node that get names, and their symbols. -/
structure Named (input : BuildInput) (s : Symbols) (id : String) (n : Node) : Prop where
  outs : ∀ o ∈ n.outletsOf .signal, s.at? (.portlet .outs id o.id) ≠ none
  rcvs : ∀ i ∈ n.inletsOf .message, receives ((input.settings.inletCallers.get? id).getD []) n i.id = true →
    s.at? (.portlet .rcvs id i.id) ≠ none
  listeners : ∀ outlet ∈ (input.settings.outletListeners.get? id).getD [], s.at? (.listener id outlet) ≠ none
  callers : ∀ inlet ∈ (input.settings.inletCallers.get? id).getD [], s.at? (.caller id inlet) ≠ none

theorem Named.mono {s t : Symbols} {id : String} {n : Node} (named : Named input s id n) (grows : s.Grows t) :
    Named input t id n :=
  ⟨fun o member => grows.present (named.outs o member),
    fun i member receives => grows.present (named.rcvs i member receives),
    fun outlet member => grows.present (named.listeners outlet member),
    fun inlet member => grows.present (named.callers inlet member)⟩

/-- The table of the variables of signal outlets. -/
theorem signalOutsField : Field NodeDraft.signalOuts (fun outs n => { n with signalOuts := outs }) :=
  ⟨fun _ _ => rfl, fun _ _ _ => rfl, fun _ => rfl⟩

/-- A node that gets variables for its signal outlets. -/
def OutsNamed (s : Symbols) (id : String) (n : Node) (before after : NodeDraft) : Prop :=
  Filled NodeDraft.signalOuts (fun outs n => { n with signalOuts := outs }) Portlet.id (n.outletsOf .signal)
    (fun outlet symbol => s.at? (.portlet .outs id outlet) = some symbol) before after

theorem OutsNamed.mono {s t : Symbols} {id : String} {n : Node} {before after : NodeDraft}
    (named : OutsNamed s id n before after) (grows : s.Grows t) : OutsNamed t id n before after := by
  obtain ⟨table, same, values, keys⟩ := named
  refine ⟨table, same, fun o member => ?_, keys⟩
  obtain ⟨symbol, stored, given⟩ := values o member
  exact ⟨symbol, stored, grows.kept given⟩

/-- The names of the portlets of one node. -/
theorem namePortlets_ends {id : String} {n : Node} (found : input.graph.get? id = some n) :
    Ends (namePortlets input id) w
      (fun _ after => w.symbols.Grows after.symbols ∧ OnlyNodes w.draft after.draft ∧ Named input after.symbols id n ∧
        NodesChanged [id] (fun _ => OutsNamed after.symbols id n) w.draft after.draft)
      (fun e => Covers w.symbols input.graph → e.IsName) := by
  refine Ends.lift_bind ?_
  rw [Graph.node_eq_ok_iff.mpr found]
  refine Ends.bind (fillEach_ends signalOutsField Portlet.id id
    (fun s outlet symbol => s.at? (.portlet .outs id outlet) = some symbol) (fun grows => grows.kept)
    (fun done s => ∀ o ∈ done, s.at? (.portlet .outs id o.id) ≠ none) (List.forall_mem_nil _) ?_) ?_
  · intro done o rest now _ named grows _ _
    refine Ends.name_bind ((now.symbols.attachPortlet_yields .outs id o.id).mono ?_ ?_)
    · rintro ⟨symbol, s⟩ assigns
      refine Ends.modifyNode ⟨assigns.grows, fun p member => ?_, symbol, assigns.at?_eq, rfl⟩
      rcases List.mem_append.mp member with earlier | last
      · exact assigns.grows.present (named p earlier)
      · rw [List.mem_singleton.mp last, assigns.at?_eq]
        exact Option.some_ne_none symbol
    · exact fun e bad covers => bad (grows.present (covers id n found))
  rintro _ w₁ ⟨grows₁, only, outs, changed⟩
  refine Ends.bind (nameEach_ends (fun i : Portlet => .portlet .rcvs id i.id) ?_) ?_
  · intro i _ s grows
    refine (s.attachPortlet_yields .rcvs id i.id).mono (fun _ post => post) ?_
    exact fun e bad covers => bad ((grows₁.trans grows).present (covers id n found))
  rintro _ w₂ ⟨same₂, grows₂, rcvs⟩
  refine Ends.bind (nameEach_ends (fun outlet => .listener id outlet) ?_) ?_
  · exact fun outlet _ s _ => (s.attachListener_yields id outlet).mono (fun _ post => post) (fun _ bad _ => bad)
  rintro _ w₃ ⟨same₃, grows₃, listeners⟩
  refine (nameEach_ends (fun inlet => .caller id inlet) ?_).mono ?_ (fun _ bad => bad)
  · exact fun inlet _ s _ => (s.attachCaller_yields id inlet).mono (fun _ post => post) (fun _ bad _ => bad)
  rintro _ w₄ ⟨same₄, grows₄, callers⟩
  have unchanged : w₄.draft = w₁.draft := same₄.trans (same₃.trans same₂)
  have grows : w₁.symbols.Grows w₄.symbols := grows₂.trans (grows₃.trans grows₄)
  rw [unchanged]
  refine ⟨grows₁.trans grows, only, ⟨?_, ?_, ?_, callers⟩, changed.mono (fun _ _ _ _ named => OutsNamed.mono named grows)⟩
  · exact fun o member => grows.present (outs o member)
  · intro i member receives
    exact (grows₃.trans grows₄).present (rcvs i (List.mem_filter.mpr ⟨member, receives⟩))
  · exact fun outlet member => grows₄.present (listeners outlet member)

/-- Every node of the graph has its portlets named. -/
def AllNamed (input : BuildInput) (s : Symbols) : Prop := ∀ id n, input.graph.get? id = some n → Named input s id n

/-- Once all portlets are named, a term for the source of a signal inlet is there exactly if the source is a signal. -/
theorem sourceTerm_exact (keyed : input.graph.PortletsKeyed) {s : Symbols} (named : AllNamed input s) (n : Node)
    (inlet : String) (source : Endpoint) : Yields (sourceTerm input.graph s n inlet source)
      (fun _ => input.graph.outletKind? source = some .signal)
      (fun _ => ¬input.graph.outletKind? source = some .signal) := by
  refine Yields.bind ((input.graph.node_yields source.node).mono (fun _ found => found) (fun _ missing => ?_)) ?_
  · simp [Graph.outletKind?, missing]
  intro origin found
  refine Yields.bind ((origin.outlet_yields source.portlet).mono (fun _ found => found) (fun _ missing => ?_)) ?_
  · simp [Graph.outletKind?, found, missing]
  intro p declared
  have kind : input.graph.outletKind? source = some p.kind :=
    Graph.outletKind?_eq_some_iff.mpr ⟨origin, found, p, declared, rfl⟩
  by_cases isSignal : p.kind = .signal
  · have own := keyed.outletId found declared
    have member : p ∈ origin.outletsOf .signal :=
      (Graph.mem_portletsOf_iff (keyed.outletId found)).mpr ⟨own.symm ▸ declared, isSignal⟩
    obtain ⟨term, stored⟩ := Option.ne_none_iff_exists'.mp ((named _ origin found).outs p member)
    rw [if_pos isSignal, Symbols.portlet_eq_ok_iff.mpr (own ▸ stored)]
    exact isSignal ▸ kind
  · rw [if_neg isSignal]
    exact fun isKind => isSignal (Option.some.inj (kind.symm.trans isKind))

/-- Once all portlets are named, a sink of a message outlet has a receiver exactly if it is for messages. -/
theorem sinkReceiver_exact (mirrored : input.graph.Mirrored) (keyed : input.graph.PortletsKeyed) {s : Symbols}
    (named : AllNamed input s) {id : String} {n : Node} (found : input.graph.get? id = some n) {outlet : String} {sink : Endpoint}
    (listed : sink ∈ n.sinksOf outlet) : Yields (sinkReceiver input.graph s n outlet sink)
      (fun _ => input.graph.inletKind? sink = some .message)
      (fun _ => ¬input.graph.inletKind? sink = some .message) := by
  refine Yields.bind ((input.graph.node_yields sink.node).mono (fun _ found => found) (fun _ missing => ?_)) ?_
  · simp [Graph.inletKind?, missing]
  intro target targetFound
  refine Yields.bind ((target.inlet_yields sink.portlet).mono (fun _ found => found) (fun _ missing => ?_)) ?_
  · simp [Graph.inletKind?, targetFound, missing]
  intro q declared
  have kind : input.graph.inletKind? sink = some q.kind :=
    Graph.inletKind?_eq_some_iff.mpr ⟨target, targetFound, q, declared, rfl⟩
  by_cases isMessage : q.kind = .message
  · have own := keyed.inletId targetFound declared
    have member : q ∈ target.inletsOf .message :=
      (Graph.mem_portletsOf_iff (keyed.inletId targetFound)).mpr ⟨own.symm ▸ declared, isMessage⟩
    have recorded := (mirrored.mirror found targetFound outlet sink.portlet).mp listed
    have isFed : receives ((input.settings.inletCallers.get? sink.node).getD []) target q.id = true := by
      simp only [receives, own, Bool.or_eq_true, Bool.not_eq_true', List.isEmpty_eq_false_iff]
      exact .inr (List.ne_nil_of_mem recorded)
    obtain ⟨receiver, stored⟩ := Option.ne_none_iff_exists'.mp ((named _ target targetFound).rcvs q member isFed)
    rw [if_pos isMessage, Symbols.portlet_eq_ok_iff.mpr (own ▸ stored)]
    exact isMessage ▸ kind
  · rw [if_neg isMessage]
    exact fun isKind => isMessage (Option.some.inj (kind.symm.trans isKind))

theorem sourceTerm_ok (wf : input.graph.WellFormed) {s : Symbols} (named : AllNamed input s) {id : String} {n : Node}
    (found : input.graph.get? id = some n) {i : Portlet} (member : i ∈ n.inletsOf .signal) {source : Endpoint}
    (listed : source ∈ n.sourcesOf i.id) : ∃ term, sourceTerm input.graph s n i.id source = .ok term := by
  obtain ⟨declared, kind⟩ := (Graph.mem_inletsOf_iff wf found).mp member
  have connects : input.graph.Connects .signal ⟨source, ⟨id, i.id⟩⟩ :=
    (Graph.connects_iff_source wf).mpr ⟨n, i, found, declared, kind, listed⟩
  obtain ⟨origin, p, originFound, outlet, outletKind, _⟩ := connects
  have isSignal : input.graph.outletKind? source = some .signal :=
    Graph.outletKind?_eq_some_iff.mpr ⟨origin, originFound, p, outlet, outletKind⟩
  obtain ⟨term, made, _⟩ := ((sourceTerm_exact wf.portletsKeyed named n i.id source).mono (fun _ post => post)
    (fun _ bad => bad isSignal)).exists_ok
  exact ⟨term, made⟩

theorem sinkReceiver_ok (wf : input.graph.WellFormed) {s : Symbols} (named : AllNamed input s) {id : String} {n : Node}
    (found : input.graph.get? id = some n) {o : Portlet} (member : o ∈ n.outletsOf .message) {sink : Endpoint}
    (listed : sink ∈ n.sinksOf o.id) : ∃ receiver, sinkReceiver input.graph s n o.id sink = .ok receiver := by
  obtain ⟨declared, kind⟩ := (Graph.mem_outletsOf_iff wf found).mp member
  have connects : input.graph.Connects .message ⟨⟨id, o.id⟩, sink⟩ := ⟨n, o, found, declared, kind, listed⟩
  obtain ⟨target, q, targetFound, inlet, inletKind, _⟩ := (Graph.connects_iff_source wf).mp connects
  have isMessage : input.graph.inletKind? sink = some .message :=
    Graph.inletKind?_eq_some_iff.mpr ⟨target, targetFound, q, inlet, inletKind⟩
  obtain ⟨receiver, made, _⟩ := ((sinkReceiver_exact wf.toMirrored wf.portletsKeyed named found listed).mono
    (fun _ post => post) (fun _ bad => bad isMessage)).exists_ok
  exact ⟨receiver, made⟩

theorem inletExpression_ok (wf : input.graph.WellFormed) {s : Symbols} (named : AllNamed input s) {id : String} {n : Node}
    (found : input.graph.get? id = some n) {i : Portlet} (member : i ∈ n.inletsOf .signal) :
    ∃ expression, inletExpression input.graph s n i.id = .ok expression := by
  obtain ⟨terms, result⟩ := exists_mapM_ok (fun _ listed => sourceTerm_ok wf named found member listed)
  exact ⟨sumExpression terms, bind_eq_ok_iff.mpr ⟨terms, result, rfl⟩⟩

theorem senderPlan_ok (wf : input.graph.WellFormed) {s : Symbols} (named : AllNamed input s) {id : String} {n : Node}
    (found : input.graph.get? id = some n) {o : Portlet} (member : o ∈ n.outletsOf .message) :
    ∃ plan, senderPlan input.graph s n o.id = .ok plan := by
  obtain ⟨receivers, result⟩ := exists_mapM_ok (fun _ listed => sinkReceiver_ok wf named found member listed)
  exact ⟨_, bind_eq_ok_iff.mpr ⟨receivers, result, rfl⟩⟩

/-- A node whose signal inlets have expressions and whose message outlets have plans. -/
def Wired (g : Graph) (s : Symbols) (n : Node) (before after : NodeDraft) : Prop :=
  ∃ ins plans, after = { before with signalIns := ins, senderPlans := plans } ∧
    (∀ i ∈ n.inletsOf .signal, ∃ expression, ins.get? i.id = some expression ∧
      inletExpression g s n i.id = .ok expression) ∧
    (((n.inletsOf .signal).map Portlet.id).Nodup → before.signalIns = ∅ →
      ins.keys = (n.inletsOf .signal).map Portlet.id) ∧
    ∀ o ∈ n.outletsOf .message, ∃ plan, plans.get? o.id = some plan ∧ senderPlan g s n o.id = .ok plan

/-- Connecting the portlets of a node cannot fail once all portlets of a well-formed graph are named. -/
theorem wirePortlets_ends {id : String} {n : Node} (found : input.graph.get? id = some n) :
    Ends (wirePortlets input id) w
      (fun _ after => after.symbols = w.symbols ∧ OnlyNodes w.draft after.draft ∧
        NodesChanged [id] (fun _ => Wired input.graph w.symbols n) w.draft after.draft)
      (fun _ => input.graph.WellFormed → ¬AllNamed input w.symbols) := by
  have insField : Field NodeDraft.signalIns (fun ins n => { n with signalIns := ins }) :=
    ⟨fun _ _ => rfl, fun _ _ _ => rfl, fun _ => rfl⟩
  have plansField : Field NodeDraft.senderPlans (fun plans n => { n with senderPlans := plans }) :=
    ⟨fun _ _ => rfl, fun _ _ _ => rfl, fun _ => rfl⟩
  refine Ends.lift_bind ?_
  rw [Graph.node_eq_ok_iff.mpr found]
  refine Ends.bind (readEach_ends insField Portlet.id id (fun i member => ?_)) ?_
  · cases result : inletExpression input.graph w.symbols n i.id with
    | ok expression => trivial
    | error e =>
      intro wf named
      obtain ⟨expression, succeeds⟩ := inletExpression_ok wf named found member
      cases result.symm.trans succeeds
  rintro _ between ⟨same, only, changed⟩
  rw [← same]
  refine (readEach_ends plansField Portlet.id id (fun o member => ?_)).mono ?_ (fun _ bad => bad)
  · cases result : senderPlan input.graph between.symbols n o.id with
    | ok plan => trivial
    | error e =>
      intro wf named
      obtain ⟨plan, succeeds⟩ := senderPlan_ok wf named found member
      cases result.symm.trans succeeds
  rintro _ after ⟨sameNext, onlyNext, changedNext⟩
  refine ⟨sameNext, only.trans onlyNext, changed.twice changedNext ?_⟩
  rintro x y z ⟨ins, rfl, insValues, insKeys⟩ ⟨plans, rfl, plansValues, _⟩
  exact ⟨ins, plans, rfl, same.symm ▸ insValues, insKeys, plansValues⟩

/-- A draft that has just been started. -/
structure Started (g : Graph) (full : List String) (d : Draft) : Prop where
  keys : ∀ id, id ∈ d.nodes.keys ↔ id ∈ full
  nodes : ∀ id m, d.nodes.get? id = some m → ∃ n, g.get? id = some n ∧ m = { type := n.type }
  partition : d.partition = .start full
  types : d.types = ∅

theorem start_yields (g : Graph) (full : List String) :
    Yields (Draft.start g full) (Started g full) (fun _ => ∃ id ∈ full, g.get? id = none) := by
  have entries : Yields (full.mapM (fun id => do return (id, ({ type := (← g.node id).type } : NodeDraft))))
      (List.Forall₂ (fun id entry => entry.1 = id ∧ ∃ n, g.get? id = some n ∧ entry.2 = { type := n.type }) full)
      (fun _ => ∃ id ∈ full, g.get? id = none) := by
    refine Yields.mapM (fun id member => ?_)
    refine Yields.bind ((g.node_yields id).mono (fun _ post => post) (fun _ missing => ⟨id, member, missing⟩)) ?_
    exact fun n found => ⟨rfl, n, found, rfl⟩
  refine Yields.bind entries (fun list related => ?_)
  have ids : list.map Prod.fst = full := by
    rw [← map_eq_map_of_forall₂ id Prod.fst (related.imp (fun _ _ entry => entry.1.symm)), List.map_id]
  refine ⟨fun id => ?_, fun id m found => ?_, rfl, rfl⟩
  · rw [Table.mem_keys_ofList, ids]
  · obtain ⟨_, _, rfl, n, present, equal⟩ := exists_left_of_forall₂ related (Table.mem_of_get?_ofList found)
    exact ⟨n, present, equal⟩

/-- The expression of a signal inlet: the sum of the variables of its sources. -/
def ExpressionOf (s : Symbols) (n : Node) (inlet expression : String) : Prop :=
  ∃ terms, expression = sumExpression terms ∧
    List.Forall₂ (fun source term => s.at? (.portlet .outs source.node source.portlet) = some term) (n.sourcesOf inlet) terms

theorem ExpressionOf.mono {s t : Symbols} {n : Node} {inlet expression : String}
    (written : ExpressionOf s n inlet expression) (grows : s.Grows t) : ExpressionOf t n inlet expression := by
  obtain ⟨terms, same, related⟩ := written
  exact ⟨terms, same, related.imp (fun _ _ stored => grows.kept stored)⟩

theorem expressionOf_inletExpression {g : Graph} {s : Symbols} {n : Node} {inlet expression : String}
    (result : inletExpression g s n inlet = .ok expression) : ExpressionOf s n inlet expression := by
  obtain ⟨terms, each, same⟩ := bind_eq_ok_iff.mp result
  cases same
  refine ⟨terms, rfl, (mapM_eq_ok_iff.mp each).imp (fun source term read => ?_)⟩
  obtain ⟨origin, _, rest⟩ := bind_eq_ok_iff.mp read
  obtain ⟨outlet, _, rest⟩ := bind_eq_ok_iff.mp rest
  by_cases kind : outlet.kind = .signal
  · rw [if_pos kind] at rest
    exact Symbols.portlet_eq_ok_iff.mp rest
  · rw [if_neg kind] at rest
    cases rest

/-- The plan of a message outlet: its listener, which it has if it is among the outlets `listened` to, then the receivers
    of all sinks. -/
def PlanOf (s : Symbols) (listened : List String) (id : String) (n : Node) (outlet : String) (plan : List String) : Prop :=
  ∃ listener receivers, plan = Option.toList listener ++ receivers ∧
    (∀ l, listener = some l → s.at? (.listener id outlet) = some l) ∧ (outlet ∈ listened → listener ≠ none) ∧
    List.Forall₂ (fun sink r => s.at? (.portlet .rcvs sink.node sink.portlet) = some r) (n.sinksOf outlet) receivers

theorem PlanOf.mono {s t : Symbols} {listened : List String} {id : String} {n : Node} {outlet : String}
    {plan : List String} (planned : PlanOf s listened id n outlet plan) (grows : s.Grows t) :
    PlanOf t listened id n outlet plan := by
  obtain ⟨listener, receivers, same, heard, declared, related⟩ := planned
  exact ⟨listener, receivers, same, fun l isListener => grows.kept (heard l isListener), declared,
    related.imp (fun _ _ stored => grows.kept stored)⟩

theorem PlanOf.receiver {s : Symbols} {listened : List String} {id : String} {n : Node} {outlet : String}
    {plan : List String} (planned : PlanOf s listened id n outlet plan) {sink : Endpoint} (listed : sink ∈ n.sinksOf outlet) :
    ∃ receiver ∈ plan, s.at? (.portlet .rcvs sink.node sink.portlet) = some receiver := by
  obtain ⟨listener, receivers, rfl, _, _, related⟩ := planned
  obtain ⟨receiver, member, received⟩ := exists_right_of_forall₂ related listed
  exact ⟨receiver, List.mem_append_right _ member, received⟩

theorem planOf_senderPlan {g : Graph} {s : Symbols} {listened : List String} {n : Node} {outlet : String}
    {plan : List String} (result : senderPlan g s n outlet = .ok plan)
    (named : ∀ outlet ∈ listened, s.at? (.listener n.id outlet) ≠ none) : PlanOf s listened n.id n outlet plan := by
  obtain ⟨receivers, each, same⟩ := bind_eq_ok_iff.mp result
  cases same
  refine ⟨s.listener? n.id outlet, receivers, rfl, fun l isListener => isListener, named outlet, ?_⟩
  refine (mapM_eq_ok_iff.mp each).imp (fun sink r received => ?_)
  obtain ⟨target, _, rest⟩ := bind_eq_ok_iff.mp received
  obtain ⟨inlet, _, rest⟩ := bind_eq_ok_iff.mp rest
  by_cases kind : inlet.kind = .message
  · rw [if_pos kind] at rest
    exact Symbols.portlet_eq_ok_iff.mp rest
  · rw [if_neg kind] at rest
    cases rest

/-- The draft of a node between the resolving of portlets and the partition. -/
structure NodePrepared (s : Symbols) (listened : List String) (id : String) (n : Node) (d : NodeDraft) : Prop where
  outs : ((n.outletsOf .signal).map Portlet.id).Nodup → d.signalOuts.keys = (n.outletsOf .signal).map Portlet.id
  symbols : ∀ o ∈ n.outletsOf .signal, ∃ symbol, d.signalOuts.get? o.id = some symbol ∧
    s.at? (.portlet .outs id o.id) = some symbol
  ins : ((n.inletsOf .signal).map Portlet.id).Nodup → d.signalIns.keys = (n.inletsOf .signal).map Portlet.id
  expressions : ∀ i ∈ n.inletsOf .signal, ∃ expression, d.signalIns.get? i.id = some expression ∧
    ExpressionOf s n i.id expression
  plans : ∀ o ∈ n.outletsOf .message, ∃ plan, d.senderPlans.get? o.id = some plan ∧ PlanOf s listened id n o.id plan
  receivers : d.receivers = ∅
  inlined : d.inlined = false

theorem NodePrepared.mono {s t : Symbols} {listened : List String} {id : String} {n : Node} {d : NodeDraft}
    (ready : NodePrepared s listened id n d) (grows : s.Grows t) : NodePrepared t listened id n d := by
  refine ⟨ready.outs, fun o member => ?_, ready.ins, fun i member => ?_, fun o member => ?_, ready.receivers, ready.inlined⟩
  · obtain ⟨symbol, stored, given⟩ := ready.symbols o member
    exact ⟨symbol, stored, grows.kept given⟩
  · obtain ⟨expression, stored, written⟩ := ready.expressions i member
    exact ⟨expression, stored, written.mono grows⟩
  · obtain ⟨plan, stored, planned⟩ := ready.plans o member
    exact ⟨plan, stored, planned.mono grows⟩

/-- A workspace between the resolving of portlets and the partition. -/
structure Prepared (input : BuildInput) (full : List String) (stage : Stage) (w : Workspace) : Prop where
  keys : ∀ id, id ∈ w.draft.nodes.keys ↔ id ∈ full
  staged : ∀ m ∈ w.draft.nodes.values, m.stage = stage
  partition : w.draft.partition = .start full
  nodes : ∀ id d, w.draft.nodes.get? id = some d → ∃ n, input.graph.get? id = some n ∧ Named input w.symbols id n ∧
    NodePrepared w.symbols ((input.settings.outletListeners.get? id).getD []) id n d

theorem Prepared.present {full : List String} {stage : Stage} (prepared : Prepared input full stage w) :
    ∀ id ∈ full, ∃ n, input.graph.get? id = some n := by
  intro id member
  obtain ⟨d, stored⟩ := Table.mem_keys_iff.mp ((prepared.keys id).mpr member)
  obtain ⟨n, found, _⟩ := prepared.nodes id d stored
  exact ⟨n, found⟩

/-- If the draft holds all nodes of the graph, all of them are prepared. -/
theorem Prepared.node {full : List String} {stage : Stage} (prepared : Prepared input full stage w)
    (complete : ∀ id n, input.graph.get? id = some n → id ∈ full) {id : String} {n : Node}
    (found : input.graph.get? id = some n) :
    ∃ d, w.draft.nodes.get? id = some d ∧ Named input w.symbols id n ∧
      NodePrepared w.symbols ((input.settings.outletListeners.get? id).getD []) id n d := by
  obtain ⟨d, stored⟩ := Table.mem_keys_iff.mp ((prepared.keys id).mpr (complete id n found))
  obtain ⟨m, mFound, named, ready⟩ := prepared.nodes id d stored
  cases found.symm.trans mFound
  exact ⟨d, stored, named, ready⟩

theorem get?_atStage (d : Draft) (stage : Stage) (id : String) :
    (d.atStage stage).nodes.get? id = (d.nodes.get? id).map (fun n => { n with stage }) :=
  Table.get?_map _ _ _

theorem stage_atStage (d : Draft) (stage : Stage) : ∀ m ∈ (d.atStage stage).nodes.values, m.stage = stage := by
  intro m member
  obtain ⟨id, found⟩ := Table.mem_values_iff.mp member
  rw [get?_atStage, Option.map_eq_some_iff] at found
  obtain ⟨n, _, rfl⟩ := found
  rfl

/-- A pass that leaves the nodes alone keeps what is prepared. -/
theorem Prepared.next {full : List String} {stage next : Stage} {after : Workspace}
    (prepared : Prepared input full stage w) (nodes : after.draft.nodes = w.draft.nodes)
    (partition : after.draft.partition = w.draft.partition) (grows : w.symbols.Grows after.symbols) :
    Prepared input full next { after with draft := after.draft.atStage next } := by
  refine ⟨fun id => ?_, stage_atStage _ _, partition.trans prepared.partition, fun id d stored => ?_⟩
  · rw [atStage, Table.keys_map, nodes, prepared.keys]
  · rw [get?_atStage, nodes, Option.map_eq_some_iff] at stored
    obtain ⟨d, before, rfl⟩ := stored
    obtain ⟨n, found, named, ready⟩ := prepared.nodes id d before
    have later := ready.mono grows
    exact ⟨n, found, named.mono grows, later.outs, later.symbols, later.ins, later.expressions, later.plans,
      later.receivers, later.inlined⟩

/-- All names are given, one node after the other. -/
theorem nameAll_ends (present : ∀ id ∈ w.draft.nodes.keys, ∃ n, input.graph.get? id = some n) :
    Ends (w.draft.nodes.keys.forM (namePortlets input)) w
      (fun _ after => w.symbols.Grows after.symbols ∧ (OnlyNodes w.draft after.draft ∧
        ∀ id ∈ w.draft.nodes.keys, ∀ n, input.graph.get? id = some n → Named input after.symbols id n) ∧
        NodesChanged w.draft.nodes.keys (fun id before later => ∀ n, input.graph.get? id = some n →
          OutsNamed after.symbols id n before later) w.draft after.draft)
      (fun e => Covers w.symbols input.graph → e.IsName) := by
  refine Ends.eachNode w.draft.nodes.nodup_keys
    (fun s id before later => ∀ n, input.graph.get? id = some n → OutsNamed s id n before later)
    (fun grows named n found => (named n found).mono grows) (fun done now => OnlyNodes w.draft now.draft ∧
      ∀ id ∈ done, ∀ n, input.graph.get? id = some n → Named input now.symbols id n) ⟨.refl _, List.forall_mem_nil _⟩ ?_
  rintro done id rest now split ⟨only, named⟩ grows _ _
  obtain ⟨n, found⟩ := present id (by simp [split])
  refine (namePortlets_ends found).mono ?_ (fun e bad covers => bad (covers.mono grows))
  rintro _ after ⟨growsNext, onlyNext, namedNext, changed⟩
  refine ⟨growsNext, ⟨only.trans onlyNext, fun other member m mFound => ?_⟩, changed.mono ?_⟩
  · rcases List.mem_append.mp member with earlier | last
    · exact (named other earlier m mFound).mono growsNext
    · rw [List.mem_singleton.mp last] at mFound ⊢
      cases found.symm.trans mFound
      exact namedNext
  · intro other member before later outs m mFound
    rw [List.mem_singleton.mp member] at mFound ⊢
    cases found.symm.trans mFound
    exact outs

/-- Once all portlets are named, all can be connected. -/
theorem wireAll_ends (present : ∀ id ∈ w.draft.nodes.keys, ∃ n, input.graph.get? id = some n) :
    Ends (w.draft.nodes.keys.forM (wirePortlets input)) w
      (fun _ after => (after.symbols = w.symbols ∧ OnlyNodes w.draft after.draft) ∧
        NodesChanged w.draft.nodes.keys
          (fun id before after => ∀ n, input.graph.get? id = some n → Wired input.graph w.symbols n before after)
          w.draft after.draft)
      (fun _ => input.graph.WellFormed → ¬AllNamed input w.symbols) := by
  refine (Ends.eachNode w.draft.nodes.nodup_keys
    (fun _ id before after => ∀ n, input.graph.get? id = some n → Wired input.graph w.symbols n before after)
    (fun _ wired => wired) (fun _ now => now.symbols = w.symbols ∧ OnlyNodes w.draft now.draft) ⟨rfl, .refl _⟩ ?_).mono
    (fun _ _ post => post.2) (fun _ bad => bad)
  rintro done id rest now split ⟨same, only⟩ _ _ _
  obtain ⟨n, found⟩ := present id (by simp [split])
  rw [← same]
  refine (wirePortlets_ends found).mono ?_ (fun _ bad => bad)
  rintro _ after ⟨sameNext, onlyNext, changed⟩
  refine ⟨sameNext ▸ .refl _, ⟨sameNext, only.trans onlyNext⟩, changed.mono ?_⟩
  intro other member before later wired m mFound
  rw [List.mem_singleton.mp member] at mFound
  cases found.symm.trans mFound
  exact wired

/-- Resolving the portlets of a fresh draft of a well-formed graph can only fail at a name. -/
theorem resolvePortlets_ends (keyed : ∀ {id n}, input.graph.get? id = some n → n.id = id) {full : List String}
    (started : Started input.graph full w.draft) :
    Ends (resolvePortlets input) w
      (fun _ after => Prepared input full .portletsResolved after ∧ w.symbols.Grows after.symbols ∧ after.draft.types = ∅)
      (fun e => input.graph.WellFormed → (∀ id n, input.graph.get? id = some n → id ∈ full) →
        Covers w.symbols input.graph → e.IsName) := by
  have present : ∀ id ∈ w.draft.nodes.keys, ∃ n, input.graph.get? id = some n := by
    intro id member
    obtain ⟨m, stored⟩ := Table.mem_keys_iff.mp member
    obtain ⟨n, found, _⟩ := started.nodes id m stored
    exact ⟨n, found⟩
  refine Ends.pass (fun m member => ?_) (Ends.nodeIds_bind (Ends.bind ((nameAll_ends present).mono (fun _ _ post => post)
    (fun _ bad _ _ => bad)) ?_))
  · obtain ⟨id, stored⟩ := Table.mem_values_iff.mp member
    obtain ⟨n, _, rfl⟩ := started.nodes id m stored
    rfl
  rintro _ w₁ ⟨grows, ⟨only₁, namedIn⟩, outs⟩
  refine Ends.nodeIds_bind ((wireAll_ends (outs.keys.symm ▸ present)).mono ?_ (fun _ bad wf complete _ => ?_))
  · rintro _ w₂ ⟨⟨same, only₂⟩, wired⟩
    have only := only₁.trans only₂
    refine ⟨⟨fun id => ?_, stage_atStage _ _, ?_, fun id d₃ stored₃ => ?_⟩, same.symm ▸ grows, ?_⟩
    · rw [atStage, Table.keys_map, wired.keys, outs.keys, started.keys]
    · rw [atStage, only]
      exact started.partition
    · have member : id ∈ w.draft.nodes.keys := by
        have later := Table.mem_keys_of_get? stored₃
        rwa [atStage, Table.keys_map, wired.keys, outs.keys] at later
      obtain ⟨n, found⟩ := present id member
      obtain ⟨d, stored⟩ := Table.mem_keys_iff.mp member
      obtain ⟨_, _, rfl⟩ := started.nodes id d stored
      obtain ⟨d₁, stored₁, namedOuts⟩ := outs.changed id member _ stored
      obtain ⟨d₂, stored₂, isWired⟩ := wired.changed id (outs.keys.symm ▸ member) d₁ stored₁
      obtain ⟨table, rfl, given, keys⟩ := namedOuts n found
      obtain ⟨ins, plans, rfl, written, insKeys, planned⟩ := isWired n found
      rw [get?_atStage, stored₂] at stored₃
      cases stored₃
      have named := namedIn id member n found
      rw [same]
      refine ⟨n, found, named, fun distinct => keys distinct rfl, given, fun distinct => insKeys distinct rfl,
        fun i inlet => ?_, fun o outlet => ?_, rfl, rfl⟩
      · obtain ⟨expression, stored, result⟩ := written i inlet
        exact ⟨expression, stored, expressionOf_inletExpression result⟩
      · obtain ⟨plan, stored, result⟩ := planned o outlet
        have own : n.id = id := keyed found
        rw [← own] at named ⊢
        exact ⟨plan, stored, planOf_senderPlan result named.listeners⟩
    · rw [atStage, only]
      exact started.types
  · exact absurd (fun id n found => namedIn id ((started.keys id).mpr (complete id n found)) n found) (bad wf)

end DspPatch.Draft
