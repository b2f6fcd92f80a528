import DspPatch.Draft.Messages
import DspPatch.Proofs.Draft.Dependencies

/-!
What synthesizing the messages achieves. Every message outlet gets a sender whose callees are those of its plan, followed
by the functions of the cold groups that its sinks stand in, and every inlet that the host calls gets a caller that knows
the function of its node's group. What can fail is a name, a receiver without body, or a generator.
-/
namespace DspPatch.Draft
open Build
variable {input : BuildInput} {w : Workspace}

theorem foldl_appendNew (start items : List String) :
    items.foldl appendNew start = start ++ (items.filter (fun item => !start.contains item)).eraseDups := by
  induction items generalizing start with
  | nil => simp
  | cons item rest ih =>
    rw [List.foldl_cons, appendNew]
    by_cases known : start.contains item = true
    · rw [if_pos known, ih, List.filter_cons_of_neg (by simpa using known)]
    · have others : (rest.filter (fun other => !start.contains other)).filter (fun other => !other == item) =
          rest.filter (fun other => !(start ++ [item]).contains other) := by
        rw [List.filter_filter]
        refine List.filter_congr (fun other _ => ?_)
        by_cases same : other = item <;> simp [same]
      rw [if_neg known, ih, List.filter_cons_of_pos (by simpa using known), List.eraseDups_cons, others,
        List.append_assoc, List.singleton_append]

/-- The callees of a plan and then triggers of the sinks. -/
theorem mem_callees_iff {p : Partition} {plan : List String} {sinks : List Endpoint} {callee : String} :
    callee ∈ callees p plan sinks ↔ callee ∈ plan ∨ ∃ sink ∈ sinks, p.trigger? sink.node = some callee := by
  rw [callees, foldl_appendNew, List.mem_append, List.mem_eraseDups, List.mem_filter, List.mem_filterMap]
  by_cases planned : callee ∈ plan <;> simp [planned]

theorem pair_sublist_callees {p : Partition} {plan : List String} {sinks : List Endpoint} {first last : String}
    (planned : first ∈ plan) (added : last ∈ callees p plan sinks) (new : last ∉ plan) :
    [first, last].Sublist (callees p plan sinks) := by
  rw [callees, foldl_appendNew] at added ⊢
  have later := (List.mem_append.mp added).resolve_left new
  exact (List.singleton_sublist.mpr planned).append (List.singleton_sublist.mpr later)

/-- What the messages of a draft are made from. -/
structure Speaking (input : BuildInput) (w : Workspace) : Prop where
  covers : Covers w.symbols input.graph
  served : Served input w
  display : w.symbols.at? (.global "msg" "display") ≠ none
  callers : ∀ id inlets, input.settings.inletCallers.get? id = some inlets → id ∈ w.draft.nodes.keys →
    ∀ inlet ∈ inlets, w.symbols.at? (.caller id inlet) ≠ none ∧ w.symbols.at? (.portlet .rcvs id inlet) ≠ none

theorem Speaking.mono {after : Workspace} (speaking : Speaking input w) (grows : w.symbols.Grows after.symbols)
    (keeps : KeepsInlets w.draft after.draft) : Speaking input after := by
  refine ⟨speaking.covers.mono grows, speaking.served.mono grows keeps, grows.present speaking.display, ?_⟩
  rw [keeps.keys]
  intro id inlets called member inlet listed
  obtain ⟨caller, receiver⟩ := speaking.callers id inlets called member inlet listed
  exact ⟨grows.present caller, grows.present receiver⟩

/-- The symbol to send with. Only an outlet with several callees has one of its own. -/
def senderSymbol (stem outlet : String) : List String → String
  | [] => Engine.nullReceiver
  | [callee] => callee
  | _ => s!"{stem}_{PortletSlot.snds.mark}_{outlet}"

theorem senderSymbol_of_several {stem outlet : String} {list : List String} (several : 1 < list.length) :
    senderSymbol stem outlet list = s!"{stem}_{PortletSlot.snds.mark}_{outlet}" := by
  match list with
  | _ :: _ :: _ => rfl

theorem nameSender_ends (id outlet : String) (list : List String) :
    Ends (nameSender id outlet list) w
      (fun sender after => after.draft = w.draft ∧
        w.symbols.Assigns (.portlet .snds id outlet) sender.symbol after.symbols ∧ sender.callees = list ∧
        sender.needsFunction = decide (1 < list.length) ∧
        (w.symbols.at? (.portlet .snds id outlet) = none → ∀ stem, w.symbols.stem? id = some stem →
          sender.symbol = senderSymbol stem outlet list))
      (fun e => w.symbols.at? (.state id) ≠ none → e.IsName) := by
  unfold nameSender
  split
  · refine Ends.name_bind ((w.symbols.aliasSender_yields id outlet _).with_eq.mono ?_
      (fun _ bad present => absurd bad present))
    rintro named ⟨given, assigns⟩
    refine ⟨rfl, assigns, rfl, rfl, fun new stem stems => ?_⟩
    obtain ⟨_, _, chosen⟩ := Symbols.assignPortlet_new stems new given
    exact chosen
  · refine Ends.name_bind ((w.symbols.aliasSender_yields id outlet _).with_eq.mono ?_
      (fun _ bad present => absurd bad present))
    rintro named ⟨given, assigns⟩
    refine ⟨rfl, assigns, rfl, rfl, fun new stem stems => ?_⟩
    obtain ⟨_, _, chosen⟩ := Symbols.assignPortlet_new stems new given
    exact chosen
  · next several single =>
    have many : 1 < list.length := by
      match list, several, single with
      | [], several, _ => exact absurd rfl several
      | [callee], _, single => exact absurd rfl (single callee)
      | _ :: _ :: _, _, _ => simp
    refine Ends.name_bind ((w.symbols.attachPortlet_yields .snds id outlet).with_eq.mono ?_ (fun _ bad => bad))
    rintro named ⟨given, assigns⟩
    refine ⟨rfl, assigns, rfl, (decide_eq_true many).symm, fun new stem stems => ?_⟩
    obtain ⟨n, same, chosen⟩ := Symbols.assignPortlet_new stems new (then_eq_ok_iff.mp given).2
    rw [same] at chosen
    rw [chosen]
    match list, many with
    | _ :: _ :: _, _ => rfl

/-- No outlet of the node has a symbol to send with. -/
def SendersUnnamed (s : Symbols) (id : String) : Prop := ∀ outlet, s.at? (.portlet .snds id outlet) = none

/-- The sender of an outlet that calls `list`. Its symbol is known if senders got no symbols before, in `start`. -/
structure SenderOf (start s : Symbols) (id outlet : String) (list : List String) (sender : Sender) : Prop where
  callees : sender.callees = list
  stored : s.at? (.portlet .snds id outlet) = some sender.symbol
  dedicated : sender.needsFunction = decide (1 < list.length)
  symbol : SendersUnnamed start id → ∀ stem, s.stem? id = some stem → sender.symbol = senderSymbol stem outlet list

theorem SenderOf.mono {start s t : Symbols} {id outlet : String} {list : List String} {sender : Sender}
    (made : SenderOf start s id outlet list sender) (grows : s.Grows t) : SenderOf start t id outlet list sender :=
  ⟨made.callees, grows.kept made.stored, made.dedicated, fun unnamed => grows.stems ▸ made.symbol unnamed⟩

/-- A node that gets the senders of its message outlets. -/
def SendersMade (start s : Symbols) (p : Partition) (id : String) (n : Node) (before after : NodeDraft) : Prop :=
  ∃ senders, after = { before with senders := senders } ∧ ∀ o ∈ n.outletsOf .message, ∃ sender,
    senders.get? o.id = some sender ∧
    SenderOf start s id o.id (callees p ((before.senderPlans.get? o.id).getD []) (n.sinksOf o.id)) sender

theorem SendersMade.mono {start s t : Symbols} {p : Partition} {id : String} {n : Node} {before after : NodeDraft}
    (made : SendersMade start s p id n before after) (grows : s.Grows t) : SendersMade start t p id n before after := by
  obtain ⟨senders, same, each⟩ := made
  refine ⟨senders, same, fun o member => ?_⟩
  obtain ⟨sender, stored, isSender⟩ := each o member
  exact ⟨sender, stored, isSender.mono grows⟩

theorem makeSenders_ends {id : String} {n : Node} {m : NodeDraft} (found : input.graph.get? id = some n)
    (stored : w.draft.nodes.get? id = some m) :
    Ends (makeSenders input id) w
      (fun _ after => w.symbols.Grows after.symbols ∧ OnlyNodes w.draft after.draft ∧
        (∀ other, other ≠ id → SendersUnnamed w.symbols other → SendersUnnamed after.symbols other) ∧
        NodesChanged [id] (fun _ => SendersMade w.symbols after.symbols w.draft.partition id n) w.draft after.draft)
      (fun e => Covers w.symbols input.graph → e.IsName) := by
  have field : Field NodeDraft.senders (fun senders n => { n with senders := senders }) :=
    ⟨fun _ _ => rfl, fun _ _ _ => rfl, fun _ => rfl⟩
  refine Ends.lift_bind ?_
  rw [Graph.node_eq_ok_iff.mpr found]
  -- A symbol that the node sends with while the loop runs is the one that belongs to its outlet.
  refine (fillEach_ends field Portlet.id id (fun s outlet => SenderOf w.symbols s id outlet
      (callees w.draft.partition ((m.senderPlans.get? outlet).getD []) (n.sinksOf outlet)))
    (fun grows made => made.mono grows)
    (fun _ s => (∀ other, other ≠ id → SendersUnnamed w.symbols other → SendersUnnamed s other) ∧
      (SendersUnnamed w.symbols id → ∀ outlet old, s.at? (.portlet .snds id outlet) = some old →
        ∀ stem, s.stem? id = some stem → old = senderSymbol stem outlet
          (callees w.draft.partition ((m.senderPlans.get? outlet).getD []) (n.sinksOf outlet))))
    ⟨fun _ _ unnamed => unnamed, fun unnamed outlet old known => ?_⟩ ?_).mono ?_ (fun _ bad => bad)
  · rw [unnamed outlet] at known
    cases known
  · rintro done o rest now split ⟨others, own⟩ grows only changed
    obtain ⟨m', stored', table, rfl⟩ := changed.changed id List.mem_cons_self m stored
    have partition : now.draft.partition = w.draft.partition := by rw [only]
    refine Ends.draft_bind (Ends.lift_bind ?_)
    rw [node_eq_ok_iff.mpr stored']
    refine Ends.bind ((nameSender_ends id o.id _).mono (fun _ _ post => post)
      (fun e bad covers => bad (grows.present (covers id n found)))) ?_
    rintro sender between ⟨same, assigns, listed, dedicated, chosen⟩
    rw [partition] at listed dedicated chosen
    have symbol : SendersUnnamed w.symbols id → ∀ stem, now.symbols.stem? id = some stem → sender.symbol =
        senderSymbol stem o.id (callees w.draft.partition ((m.senderPlans.get? o.id).getD []) (n.sinksOf o.id)) := by
      intro unnamed stem stems
      cases known : now.symbols.at? (.portlet .snds id o.id) with
      | none => exact chosen known stem stems
      | some old => rw [← assigns.known old known, own unnamed o.id old known stem stems]
    refine Ends.modifyNode ⟨assigns.grows, ⟨fun other away unnamed outlet => ?_, fun unnamed outlet old known => ?_⟩, sender,
      ⟨listed, assigns.at?_eq, dedicated, fun unnamed => assigns.stems ▸ symbol unnamed⟩, ?_⟩
    · rw [assigns.read, if_neg (fun same => away (SymbolSlot.portlet.inj same).2.1)]
      exact others other away unnamed outlet
    · rw [assigns.stems]
      rw [assigns.read] at known
      split at known
      next same =>
        cases known
        cases same
        exact symbol unnamed
      next => exact own unnamed outlet old known
    · show between.draft.modifyNode id _ = _
      rw [same]
  · rintro _ after ⟨grows, only, ⟨others, _⟩, changed⟩
    refine ⟨grows, only, others, changed.keys, changed.same, fun other member before found' => ?_⟩
    obtain ⟨d, stored', senders, rfl, each, _⟩ := changed.changed other member before found'
    rw [List.mem_singleton.mp member] at found'
    cases stored.symm.trans found'
    exact ⟨_, stored', senders, rfl, each⟩

/-- The receivers of a node can only fail for want of a body, or in a generator. -/
theorem receiverFunctions_yields {s : Symbols} {d : Draft} {id : String} {n : Node} {m : NodeDraft} {i : Implementation}
    (found : input.graph.get? id = some n) (stored : d.nodes.get? id = some m)
    (serves : (⟨n, s, input.settings, m.signalIns⟩ : NodeContext).Serves input.graph input.registry i)
    (sends : (⟨n, s, input.settings, m.signalIns⟩ : NodeContext).Sends) (display : s.at? (.global "msg" "display") ≠ none)
    {inlets : List String} (named : ∀ inlet ∈ inlets, s.at? (.portlet .rcvs id inlet) ≠ none) :
    Yields (receiverFunctions input s d id inlets) (fun _ => True) (CodeFault input.graph input.registry) := by
  have unhandled : ∀ inlet, ∃ text, unhandledMessage s input.settings.debug n.type id inlet = .ok text := by
    intro inlet
    unfold unhandledMessage
    split
    next =>
      obtain ⟨symbol, read⟩ := Option.ne_none_iff_exists'.mp display
      rw [Symbols.global_eq_ok_iff.mpr read]
      exact ⟨_, rfl⟩
    next => exact ⟨_, rfl⟩
  have functions : ∀ bodies, Yields (inlets.mapM (fun inlet => do
      return (inlet, ← receiverFunction input s n id inlet bodies))) (List.Forall₂ (fun _ _ => True) inlets)
      (CodeFault input.graph input.registry) := by
    intro bodies
    refine Yields.mapM (fun inlet member => ?_)
    obtain ⟨symbol, read⟩ := Option.ne_none_iff_exists'.mp (named inlet member)
    obtain ⟨text, reported⟩ := unhandled inlet
    unfold receiverFunction
    cases bodies.get? inlet with
    | none => exact .inr (.inl ⟨_, _, _, rfl⟩)
    | some receiver =>
      dsimp only
      rw [reported, Symbols.portlet_eq_ok_iff.mpr read]
      split <;> trivial
  unfold receiverFunctions
  rw [Graph.node_eq_ok_iff.mpr found]
  show Yields (input.registry.implementation n >>= _) _ _
  rw [Registry.implementation_eq_ok_iff.mpr serves.type.registered]
  show Yields (input.context s d id >>= _) _ _
  rw [context_eq_ok s found stored]
  show Yields (i.receivers _ >>= _) _ _
  refine Yields.bind ((Yields.self _).mono (fun _ _ => trivial) (fun e raised => ?_)) (fun bodies _ => ?_)
  · have fails : i.Fails ⟨n, s, input.settings, m.signalIns⟩ e := .inr (.inr (.inr (.inr raised)))
    exact .inr (.inr (.inl ⟨n.type, i, serves.type.registered, .node serves sends fails⟩))
  · exact Yields.bind (functions bodies) (fun _ _ => trivial)

/-- The receivers of a node are the functions of its receiver symbols. -/
structure ReceiversOf (s : Symbols) (id : String) (receivers : Table Func) : Prop where
  defined : ∀ inlet symbol, s.at? (.portlet .rcvs id inlet) = some symbol →
    ∃ body, receivers.get? inlet = some (messageFunction symbol body)
  named : ∀ inlet f, receivers.get? inlet = some f →
    ∃ symbol body, s.at? (.portlet .rcvs id inlet) = some symbol ∧ f = messageFunction symbol body

theorem receiversOf_empty {s : Symbols} {id : String} (none : ∀ inlet, s.at? (.portlet .rcvs id inlet) = none) :
    ReceiversOf s id ∅ := by
  refine ⟨fun inlet symbol given => ?_, fun inlet f stored => ?_⟩
  · rw [none inlet] at given
    cases given
  · cases stored

theorem receiversOf_receiverFunctions {s : Symbols} {d : Draft} {id : String} {inlets : List String}
    {receivers : Table Func} (all : ∀ inlet, inlet ∈ inlets ↔ s.at? (.portlet .rcvs id inlet) ≠ none)
    (made : receiverFunctions input s d id inlets = .ok receivers) : ReceiversOf s id receivers := by
  obtain ⟨n, _, made⟩ := bind_eq_ok_iff.mp made
  obtain ⟨i, _, made⟩ := bind_eq_ok_iff.mp made
  obtain ⟨context, _, made⟩ := bind_eq_ok_iff.mp made
  obtain ⟨bodies, _, made⟩ := bind_eq_ok_iff.mp made
  obtain ⟨list, each, made⟩ := bind_eq_ok_iff.mp made
  cases made
  have entries : List.Forall₂ (fun inlet entry => entry.1 = inlet ∧ ∃ symbol body,
      s.at? (.portlet .rcvs id inlet) = some symbol ∧ entry.2 = messageFunction symbol body) inlets list := by
    refine (mapM_eq_ok_iff.mp each).imp (fun inlet entry result => ?_)
    obtain ⟨f, function, same⟩ := bind_eq_ok_iff.mp result
    cases same
    refine ⟨rfl, ?_⟩
    unfold receiverFunction at function
    split at function
    next => cases function
    next receiver _ =>
      have last : ∀ body, (do return messageFunction (← s.portlet .rcvs id inlet) body) = .ok f → ∃ symbol body,
          s.at? (.portlet .rcvs id inlet) = some symbol ∧ f = messageFunction symbol body := by
        intro body result
        obtain ⟨symbol, read, same⟩ := bind_eq_ok_iff.mp result
        cases same
        exact ⟨symbol, body, Symbols.portlet_eq_ok_iff.mp read, rfl⟩
      dsimp only at function
      split at function
      next => exact last _ function
      next =>
        obtain ⟨_, _, function⟩ := bind_eq_ok_iff.mp function
        exact last _ function
  have named : ∀ inlet f, (Table.ofList list).get? inlet = some f → ∃ symbol body,
      s.at? (.portlet .rcvs id inlet) = some symbol ∧ f = messageFunction symbol body := by
    intro inlet f stored
    obtain ⟨_, _, rfl, known⟩ := exists_left_of_forall₂ entries (Table.mem_of_get?_ofList stored)
    exact known
  refine ⟨fun inlet symbol given => ?_, named⟩
  obtain ⟨entry, listed, rfl, _⟩ := exists_right_of_forall₂ entries ((all inlet).mpr (by rw [given]; simp))
  obtain ⟨f, stored⟩ := Table.mem_keys_iff.mp (Table.mem_keys_ofList.mpr (List.mem_map_of_mem listed))
  obtain ⟨symbol', body, given', rfl⟩ := named entry.1 f stored
  cases given.symm.trans given'
  exact ⟨body, stored⟩

/-- A node that gets its receivers. -/
def ReceiversMade (s : Symbols) (id : String) (before after : NodeDraft) : Prop :=
  ∃ receivers, after = { before with receivers := receivers } ∧ (before.receivers = ∅ → ReceiversOf s id receivers)

/-- Receivers are made for the symbols that are there. -/
theorem makeReceivers_ends {id : String} {n : Node} {m : NodeDraft} (found : input.graph.get? id = some n)
    (stored : w.draft.nodes.get? id = some m) :
    Ends (makeReceivers input id) w
      (fun _ after => after.symbols = w.symbols ∧ OnlyNodes w.draft after.draft ∧
        NodesChanged [id] (fun _ => ReceiversMade w.symbols id) w.draft after.draft)
      (fun e => Speaking input w → Voiced input w → CodeFault input.graph input.registry e) := by
  refine Ends.symbols_bind (Ends.lift_bind ?_)
  cases symbols : w.symbols.node id with
  | error e =>
    intro speaking _
    obtain ⟨ns, _, succeeds⟩ := node_symbols_eq_ok (speaking.covers id n found)
    cases symbols.symm.trans succeeds
  | ok ns =>
    have nsFound : w.symbols.nodes.get? id = some ns := by
      unfold Symbols.node at symbols
      split at symbols
      next present =>
        cases symbols
        exact present
      next => cases symbols
    have named : ∀ inlet, inlet ∈ ns.rcvs.entries.keys ↔ w.symbols.at? (.portlet .rcvs id inlet) ≠ none := by
      intro inlet
      rw [Table.mem_keys_iff, ← Option.ne_none_iff_exists']
      simp only [Symbols.at?, nsFound, Option.bind_some, NodeSymbols.slot]
    show Ends (if _ then _ else _) w _ _
    split
    next =>
      refine Ends.draft_bind (Ends.lift_bind ?_)
      cases made : receiverFunctions input w.symbols w.draft id ns.rcvs.entries.keys with
      | error e =>
        intro speaking voiced
        obtain ⟨rfl, i, serves⟩ := speaking.served id m n stored found
        exact (receiverFunctions_yields found stored serves (voiced n.id (Table.mem_keys_of_get? stored) n found)
          speaking.display (fun inlet member => (named inlet).mp member)).of_eq_error made
      | ok receivers =>
        refine ⟨rfl, rfl, (NodesChanged.modifyNode w.draft id (fun d => { d with receivers := receivers })).mono ?_⟩
        exact fun _ _ before after same => ⟨receivers, same, fun _ => receiversOf_receiverFunctions named made⟩
    next none =>
      refine Ends.pure ⟨rfl, .refl _, rfl, fun _ _ => rfl, fun _ _ before found' => ?_⟩
      refine ⟨before, found', before.receivers, rfl, fun empty => empty ▸ receiversOf_empty (fun inlet => ?_)⟩
      have empty : ns.rcvs.entries.keys = [] := by simpa using none
      by_contra given
      have listed := (named inlet).mpr given
      rw [empty] at listed
      cases listed

/-- The caller of an inlet knows the function of the cold group that the node stands in. -/
def CallerOf (s : Symbols) (p : Partition) (place : String × String) (caller : InletCaller) : Prop :=
  caller.node = place.1 ∧ caller.inlet = place.2 ∧ s.at? (.portlet .rcvs place.1 place.2) = some caller.receiver ∧
    caller.coldTrigger = p.trigger? place.1 ∧ s.at? (.caller place.1 place.2) = some caller.symbol

/-- The inlets of nodes of the draft that the host calls. -/
def called (input : BuildInput) (d : Draft) : List (String × String) :=
  (input.settings.inletCallers.entries.filter (fun entry => d.nodes.contains entry.1)).flatMap
    (fun (id, inlets) => inlets.map (fun inlet => (id, inlet)))

theorem mem_called_iff {d : Draft} {id inlet : String} :
    (id, inlet) ∈ called input d ↔ id ∈ d.nodes.keys ∧ ∃ inlets,
      input.settings.inletCallers.get? id = some inlets ∧ inlet ∈ inlets := by
  simp only [called, List.mem_flatMap, List.mem_filter, Table.contains_iff, List.mem_map]
  constructor
  · rintro ⟨⟨other, inlets⟩, ⟨entry, member⟩, name, listed, same⟩
    cases same
    exact ⟨member, inlets, Table.get?_eq_some_iff.mpr entry, listed⟩
  · rintro ⟨member, inlets, found, listed⟩
    exact ⟨(id, inlets), ⟨Table.get?_eq_some_iff.mp found, member⟩, inlet, listed, rfl⟩

theorem called_congr {a b : Draft} (keys : b.nodes.keys = a.nodes.keys) : called input b = called input a := by
  have contains : b.nodes.contains = a.nodes.contains := by
    funext id
    rw [Bool.eq_iff_iff, Table.contains_iff, Table.contains_iff, keys]
  rw [called, called, contains]

theorem inletCallersOf_yields {s : Symbols} {d : Draft} :
    Yields (inletCallersOf input s d) (List.Forall₂ (CallerOf s d.partition) (called input d))
      (fun _ => ∃ id inlet, (id, inlet) ∈ called input d ∧
        (s.at? (.caller id inlet) = none ∨ s.at? (.portlet .rcvs id inlet) = none)) := by
  refine Yields.mapM ?_
  rintro ⟨id, inlet⟩ member
  show Yields (inletCaller s d.partition id inlet) _ _
  unfold inletCaller
  cases caller : s.caller? id inlet with
  | none => exact ⟨id, inlet, member, .inl caller⟩
  | some symbol =>
    dsimp only
    cases receiver : s.at? (.portlet .rcvs id inlet) with
    | none =>
      cases read : s.portlet .rcvs id inlet with
      | ok symbol => cases receiver.symm.trans (Symbols.portlet_eq_ok_iff.mp read)
      | error e => exact ⟨id, inlet, member, .inr receiver⟩
    | some name =>
      rw [Symbols.portlet_eq_ok_iff.mpr receiver]
      exact ⟨rfl, rfl, receiver, rfl, caller⟩

/-- A node after its senders and receivers are made. -/
def MessagesMade (start s : Symbols) (p : Partition) (id : String) (n : Node) (before after : NodeDraft) : Prop :=
  ∃ senders receivers stage, after = { before with senders := senders, receivers := receivers, stage := stage } ∧
    (∀ o ∈ n.outletsOf .message, ∃ sender, senders.get? o.id = some sender ∧
      SenderOf start s id o.id (callees p ((before.senderPlans.get? o.id).getD []) (n.sinksOf o.id)) sender) ∧
    (before.receivers = ∅ → ReceiversOf s id receivers)

/-- The workspace after the messages of all nodes are made. -/
structure Synthesized (input : BuildInput) (before after : Workspace) : Prop where
  grows : before.symbols.Grows after.symbols
  rest : ∃ nodes callers, after.draft = { before.draft with nodes := nodes, inletCallers := callers }
  keys : after.draft.nodes.keys = before.draft.nodes.keys
  staged : ∀ m ∈ after.draft.nodes.values, m.stage = .messagesSynthesized
  nodes : ∀ id m, before.draft.nodes.get? id = some m → ∃ n m', input.graph.get? id = some n ∧
    after.draft.nodes.get? id = some m' ∧ MessagesMade before.symbols after.symbols before.draft.partition id n m m'
  callers : List.Forall₂ (CallerOf after.symbols before.draft.partition) (called input before.draft)
    after.draft.inletCallers

theorem Synthesized.keepsInlets {after : Workspace} (synthesis : Synthesized input w after) :
    KeepsInlets w.draft after.draft := by
  refine ⟨synthesis.keys, fun id m stored => ?_⟩
  obtain ⟨_, _, _, stored', _, _, _, rfl, _⟩ := synthesis.nodes id m stored
  exact ⟨_, stored', rfl⟩

theorem Synthesized.voiced {after : Workspace} (synthesis : Synthesized input w after) : Voiced input after := by
  intro id member n found outlet declared
  obtain ⟨m, stored⟩ := Table.mem_keys_iff.mp (synthesis.keys ▸ member)
  obtain ⟨_, _, found', _, _, _, _, _, sent, _⟩ := synthesis.nodes id m stored
  cases found.symm.trans found'
  obtain ⟨sender, _, isSender⟩ := sent outlet declared
  exact Option.ne_none_iff_exists'.mpr ⟨_, isSender.stored⟩

theorem sendersAll_ends (present : ∀ id ∈ w.draft.nodes.keys, ∃ n, input.graph.get? id = some n) :
    Ends (w.draft.nodes.keys.forM (makeSenders input)) w
      (fun _ after => w.symbols.Grows after.symbols ∧ OnlyNodes w.draft after.draft ∧
        NodesChanged w.draft.nodes.keys (fun id before later => ∀ n, input.graph.get? id = some n →
          SendersMade w.symbols after.symbols w.draft.partition id n before later) w.draft after.draft)
      (fun e => Covers w.symbols input.graph → e.IsName) := by
  refine (Ends.eachNode w.draft.nodes.nodup_keys (fun s id before later => ∀ n, input.graph.get? id = some n →
      SendersMade w.symbols s w.draft.partition id n before later) (fun grows made n found => (made n found).mono grows)
    (fun done now => OnlyNodes w.draft now.draft ∧
      ∀ id, id ∉ done → SendersUnnamed w.symbols id → SendersUnnamed now.symbols id)
    ⟨.refl _, fun _ _ unnamed => unnamed⟩ ?_).mono (fun _ _ post => ⟨post.1, post.2.1.1, post.2.2⟩) (fun _ bad => bad)
  rintro done id rest now split ⟨only, unnamed⟩ grows same keys
  have member : id ∈ w.draft.nodes.keys := by simp [split]
  have fresh : id ∉ done := by
    have nodup := w.draft.nodes.nodup_keys
    rw [split, List.nodup_append] at nodup
    exact fun earlier => nodup.2.2 id earlier id List.mem_cons_self rfl
  obtain ⟨n, found⟩ := present id member
  obtain ⟨m, stored⟩ := Table.mem_keys_iff.mp member
  have partition : now.draft.partition = w.draft.partition := by rw [only]
  refine (makeSenders_ends found (same.trans stored)).mono ?_ (fun e bad covers => bad (covers.mono grows))
  rintro _ after ⟨growsNext, onlyNext, others, changed⟩
  refine ⟨growsNext, ⟨only.trans onlyNext, fun other outside unnamedBefore => ?_⟩, changed.mono ?_⟩
  · rw [List.mem_append, not_or, List.mem_singleton] at outside
    exact others other outside.2 (unnamed other outside.1 unnamedBefore)
  · rintro other member before later ⟨senders, made, each⟩ k kFound
    rw [List.mem_singleton.mp member] at kFound ⊢
    cases found.symm.trans kFound
    refine ⟨senders, made, fun o outlet => ?_⟩
    obtain ⟨sender, senderStored, isSender⟩ := each o outlet
    rw [partition] at isSender
    exact ⟨sender, senderStored, isSender.callees, isSender.stored, isSender.dedicated,
      fun unnamedBefore => isSender.symbol (unnamed id fresh unnamedBefore)⟩

theorem receiversAll_ends (present : ∀ id ∈ w.draft.nodes.keys, ∃ n, input.graph.get? id = some n) :
    Ends (w.draft.nodes.keys.forM (makeReceivers input)) w
      (fun _ after => (after.symbols = w.symbols ∧ OnlyNodes w.draft after.draft) ∧
        NodesChanged w.draft.nodes.keys (fun id => ReceiversMade w.symbols id) w.draft after.draft)
      (fun e => Speaking input w → Voiced input w → CodeFault input.graph input.registry e) := by
  refine (Ends.eachNode w.draft.nodes.nodup_keys (fun _ id => ReceiversMade w.symbols id) (fun _ made => made)
    (fun _ now => now.symbols = w.symbols ∧ OnlyNodes w.draft now.draft ∧ KeepsInlets w.draft now.draft)
    ⟨rfl, .refl _, .refl _⟩ ?_).mono (fun _ _ post => ⟨⟨post.2.1.1, post.2.1.2.1⟩, post.2.2⟩) (fun _ bad => bad)
  rintro done id rest now split ⟨unchanged, only, inlets⟩ _ same keys
  have member : id ∈ w.draft.nodes.keys := by simp [split]
  obtain ⟨n, found⟩ := present id member
  obtain ⟨m, stored⟩ := Table.mem_keys_iff.mp member
  have grows : w.symbols.Grows now.symbols := unchanged ▸ .refl _
  refine (makeReceivers_ends found (same.trans stored)).mono ?_
    (fun e bad speaking voiced => bad (speaking.mono grows inlets) (voiced.mono grows keys))
  rintro _ after ⟨sameNext, onlyNext, changed⟩
  rw [unchanged] at sameNext changed
  have kept : KeepsInlets now.draft after.draft := changed.keepsInlets (by rintro _ _ _ _ ⟨_, rfl, _⟩; rfl)
  refine ⟨unchanged ▸ sameNext ▸ .refl _, ⟨sameNext, only.trans onlyNext, inlets.trans kept⟩, changed.mono ?_⟩
  intro other member before later made
  rwa [List.mem_singleton.mp member]

/-- The messages of a partitioned draft. -/
theorem synthesizeMessages_ends (staged : ∀ m ∈ w.draft.nodes.values, m.stage = .dspPartitioned)
    (present : ∀ id ∈ w.draft.nodes.keys, ∃ n, input.graph.get? id = some n) :
    Ends (synthesizeMessages input) w (fun _ after => Synthesized input w after)
      (fun e => Speaking input w → CodeFault input.graph input.registry e) := by
  refine Ends.pass staged (Ends.nodeIds_bind (Ends.bind ((sendersAll_ends present).mono (fun _ _ post => post)
    (fun _ bad speaking => .inl (bad speaking.covers))) ?_))
  rintro _ w₁ ⟨grows, only₁, senders⟩
  have kept : KeepsInlets w.draft w₁.draft := by
    refine senders.keepsInlets (fun id member m m' made => ?_)
    obtain ⟨n, found⟩ := present id member
    obtain ⟨_, rfl, _⟩ := made n found
    rfl
  have voiced : Voiced input w₁ := by
    intro id member n found outlet declared
    obtain ⟨m, stored⟩ := Table.mem_keys_iff.mp (senders.keys ▸ member)
    obtain ⟨_, _, made⟩ := senders.changed id (Table.mem_keys_of_get? stored) m stored
    obtain ⟨_, _, sent⟩ := made n found
    obtain ⟨sender, _, isSender⟩ := sent outlet declared
    exact Option.ne_none_iff_exists'.mpr ⟨_, isSender.stored⟩
  refine Ends.nodeIds_bind (Ends.bind ((receiversAll_ends (senders.keys.symm ▸ present)).mono (fun _ _ post => post)
    (fun _ bad speaking => bad (speaking.mono grows kept) voiced)) ?_)
  rintro _ w₂ ⟨⟨same, only₂⟩, receivers⟩
  have only := only₁.trans only₂
  have keys : w₂.draft.nodes.keys = w.draft.nodes.keys := receivers.keys.trans senders.keys
  have partition : w₂.draft.partition = w.draft.partition := by rw [only]
  have sameCalled : called input w₂.draft = called input w.draft := called_congr keys
  refine Ends.symbols_bind (Ends.draft_bind (Ends.lift_bind (inletCallersOf_yields.mono (fun callers related => ?_) ?_)))
  · rw [partition, sameCalled] at related
    refine Ends.modifyDraft ⟨same.symm ▸ grows, ⟨(w₂.draft.atStage .messagesSynthesized).nodes, callers, ?_⟩, ?_,
      stage_atStage _ _, fun id m stored => ?_, related⟩
    · show ({ w₂.draft with inletCallers := callers } : Draft).atStage _ = _
      rw [only]
      rfl
    · rw [atStage, Table.keys_map, keys]
    · have member := Table.mem_keys_of_get? stored
      obtain ⟨n, found⟩ := present id member
      obtain ⟨m₁, stored₁, made⟩ := senders.changed id member m stored
      obtain ⟨m₂, stored₂, received, rfl, receives⟩ := receivers.changed id (senders.keys.symm ▸ member) m₁ stored₁
      obtain ⟨table, rfl, each⟩ := made n found
      rw [same]
      exact ⟨n, _, found, by rw [get?_atStage, stored₂]; rfl, table, received, _, rfl, each, receives⟩
  · rintro e ⟨id, inlet, member, missing⟩ speaking
    rw [sameCalled, mem_called_iff] at member
    obtain ⟨listed, inlets, settings, inletListed⟩ := member
    obtain ⟨caller, receiver⟩ := (speaking.mono grows kept).callers id inlets settings (senders.keys.symm ▸ listed)
      inlet inletListed
    rw [same] at missing
    exact missing.elim (fun none => absurd none caller) (fun none => absurd none receiver)

end DspPatch.Draft
