import DspPatch.Proofs.Draft.Certificate

/-!
Where states and their classes come from. A node that declares members has a state of the class of its type, and every
class is that of a node (`StatesAgree`). Finishing a node keeps this, since the first node of a type makes the class and
each later one that declares members is compared with it. A node that declares none is compared with nothing.
-/
namespace DspPatch

/-- The class that a state is of. -/
def NodeState.record (state : NodeState) : Class :=
  ⟨state.className, state.members.map (fun m => Var.plain m.type m.name)⟩

/-- The members that a node declares. -/
def NodeDraft.members (m : NodeDraft) : List StateMember := (m.state.map NodeState.members).getD []

theorem NodeDraft.members_of_state {m : NodeDraft} {state : NodeState} (has : m.state = some state) :
    m.members = state.members := by
  rw [members, has]
  rfl

theorem NodeDraft.exists_state {m : NodeDraft} (declares : m.members ≠ []) : ∃ state, m.state = some state := by
  cases has : m.state with
  | some state => exact ⟨state, rfl⟩
  | none =>
    rw [members, has] at declares
    exact absurd rfl declares

/-- The name of the class of a node type. -/
def Symbols.classOf? (s : Symbols) (type : String) : Option String :=
  (s.at? (.typeTag type)).bind (fun tag => s.at? (.global tag "State"))

theorem Symbols.Grows.classOf? {s t : Symbols} {type name : String} (grows : s.Grows t)
    (given : s.classOf? type = some name) : t.classOf? type = some name := by
  obtain ⟨tag, tagged, named⟩ := Option.bind_eq_some_iff.mp given
  exact Option.bind_eq_some_iff.mpr ⟨tag, grows.kept tagged, grows.kept named⟩

namespace Draft
open Build
variable {input : BuildInput} {w : Workspace}

/-- The class that a node type has in a draft. -/
def class? (d : Draft) (type : String) : Option Class := (d.types.get? type).bind TypeDraft.stateClass

/-- A class has the members that their layout says. -/
theorem plain_eq_of_layout {a b : List StateMember} (same : layout a = layout b) :
    a.map (fun m => Var.plain m.type m.name) = b.map (fun m => Var.plain m.type m.name) := by
  have read : ∀ members : List StateMember, members.map (fun m => Var.plain m.type m.name) =
      (layout members).map (fun entry => Var.plain entry.1 entry.2) := by
    intro members
    rw [layout, List.map_map]
    rfl
  rw [read, read, same]

theorem layout_eq_of_plain {a b : List StateMember}
    (same : a.map (fun m => Var.plain m.type m.name) = b.map (fun m => Var.plain m.type m.name)) : layout a = layout b := by
  have read : ∀ members : List StateMember, layout members =
      (members.map (fun m => Var.plain m.type m.name)).map (fun v => (v.type, v.name)) := by
    intro members
    rw [List.map_map]
    rfl
  rw [read, read, same]

/-- The class of a node type after a node was compared with it: the node's own if there was none, else the one that was
    there, which has the same layout. -/
def ClassKept (old : Option Class) (own c : Class) : Prop :=
  old = none ∧ c = own ∨
    old = some c ∧ c.members.map (fun v => (v.type, v.name)) = own.members.map (fun v => (v.type, v.name))

theorem declareState_class (d : Draft) (id type className : String) (members : List StateMember) :
    Yields (declareState d id type className members)
      (fun after => after.nodes = d.nodes ∧ (∀ other, other ≠ type → after.class? other = d.class? other) ∧
        ∃ c, after.class? type = some c ∧
          ClassKept (d.class? type) ⟨className, members.map (fun m => Var.plain m.type m.name)⟩ c) (fun _ => True) := by
  unfold declareState
  dsimp only
  split
  next unknown =>
    refine ⟨rfl, fun other away => ?_, _, ?_, .inl ⟨?_, rfl⟩⟩
    · rw [class?, Table.get?_insert_of_ne _ _ away]
      rfl
    · rw [class?, Table.get?_insert, if_pos rfl]
      rfl
    · unfold class?
      cases found : d.types.get? type with
      | none => rfl
      | some t => rwa [found] at unknown
  next known isClass =>
    split
    next same =>
      have stored : d.class? type = some known := by
        unfold class?
        cases found : d.types.get? type with
        | none =>
          rw [found] at isClass
          cases isClass
        | some t => rwa [found] at isClass
      exact ⟨rfl, fun _ _ => rfl, known, stored, .inr ⟨stored, same⟩⟩
    next => trivial

/-- What making the state of a node leaves. -/
structure StateMade (before after : Workspace) (id type : String) (state : NodeState) : Prop where
  nonempty : state.members ≠ []
  symbol : after.symbols.at? (.state id) = some state.symbol
  named : after.symbols.classOf? type = some state.className
  others : ∀ other, other ≠ type → after.draft.class? other = before.draft.class? other
  own : ∃ c, after.draft.class? type = some c ∧ ClassKept (before.draft.class? type) state.record c

theorem makeState_class (w : Workspace) (id type : String) (members : List StateMember) :
    Ends (makeState id type members) w
      (fun state after => w.symbols.Grows after.symbols ∧ after.draft.nodes = w.draft.nodes ∧
        (state.map NodeState.members).getD [] = members ∧
        (state = none ∧ (∀ other, after.draft.class? other = w.draft.class? other) ∨
          ∃ own, state = some own ∧ StateMade w after id type own))
      (fun _ => True) := by
  unfold makeState
  split
  next none => exact Ends.pure ⟨.refl _, rfl, (List.isEmpty_iff.mp none).symm, .inl ⟨rfl, fun _ => rfl⟩⟩
  next declares =>
  refine Ends.symbols_bind (Ends.lift_bind ((Yields.self _).mono (fun tag tagged => ?_) (fun _ _ => trivial)))
  refine Ends.name_bind ((w.symbols.attachGlobal_yields tag "State").mono ?_ (fun _ _ => trivial))
  rintro ⟨className, s⟩ assigns
  refine Ends.draft_bind (Ends.lift_bind ((declareState_class w.draft id type className members).mono ?_ (fun _ bad => bad)))
  rintro d ⟨nodes, others, c, stored, kept⟩
  refine Ends.modifyDraft_bind (Ends.symbols_bind (Ends.lift_bind ((Yields.self _).mono ?_ (fun _ _ => trivial))))
  intro ns read
  have grows : w.symbols.Grows s := assigns.grows
  have found : s.at? (.state id) = some ns.state := by
    unfold Symbols.node at read
    split at read
    next present =>
      cases read
      simp only [Symbols.at?, present, Option.map_some]
    next => cases read
  have named : s.classOf? type = some className :=
    Option.bind_eq_some_iff.mpr ⟨tag, grows.kept (Symbols.typeTag_eq_ok_iff.mp tagged), assigns.at?_eq⟩
  refine Ends.pure ⟨grows, nodes, rfl, .inr ⟨_, rfl, ?_, found, named, others, c, stored, kept⟩⟩
  exact fun empty => declares (List.isEmpty_iff.mpr empty)

/-- The state of a node: it is named, and it is of the class of its type. -/
structure HasState (w : Workspace) (id type : String) (state : NodeState) : Prop where
  nonempty : state.members ≠ []
  symbol : w.symbols.at? (.state id) = some state.symbol
  named : w.symbols.classOf? type = some state.className
  declared : w.draft.class? type = some state.record

/-- A node of a type that has a state. -/
def StateOf (input : BuildInput) (d : Draft) (id type : String) (state : NodeState) : Prop :=
  ∃ n m, input.graph.get? id = some n ∧ n.type = type ∧ d.nodes.get? id = some m ∧ m.state = some state

/-- The states of the nodes `done` and the classes of the types belong together. -/
structure StatesAgree (input : BuildInput) (done : List String) (w : Workspace) : Prop where
  states : ∀ id ∈ done, ∀ type state, StateOf input w.draft id type state → HasState w id type state
  classes : ∀ type c, w.draft.class? type = some c → ∃ id ∈ done, ∃ state,
    StateOf input w.draft id type state ∧ c = state.record

theorem StatesAgree.name_eq {done : List String} (agree : StatesAgree input done w) {type : String} {c : Class}
    (isClass : w.draft.class? type = some c) : w.symbols.classOf? type = some c.name := by
  obtain ⟨id, member, state, isState, rfl⟩ := agree.classes type c isClass
  exact (agree.states id member type state isState).named

/-- Two states of one type have the same layout. -/
theorem StatesAgree.layout_eq {done : List String} (agree : StatesAgree input done w) {a b type : String}
    {first second : NodeState} (aDone : a ∈ done) (bDone : b ∈ done) (isFirst : StateOf input w.draft a type first)
    (isSecond : StateOf input w.draft b type second) : layout first.members = layout second.members := by
  have one := (agree.states a aDone type first isFirst).declared
  have other := (agree.states b bDone type second isSecond).declared
  have same : first.record = second.record := Option.some.inj (one.symm.trans other)
  exact layout_eq_of_plain (congrArg Class.members same)

/-- The class that a state is compared with is its own. -/
theorem StatesAgree.kept_eq {done : List String} {after : Workspace} {id type : String} {state : NodeState} {c : Class}
    (agree : StatesAgree input done w) (grows : w.symbols.Grows after.symbols) (made : StateMade w after id type state)
    (kept : ClassKept (w.draft.class? type) state.record c) : c = state.record := by
  rcases kept with ⟨_, same⟩ | ⟨known, layouts⟩
  · exact same
  · have names := (grows.classOf? (agree.name_eq known)).symm.trans made.named
    obtain ⟨other, _, first, _, rfl⟩ := agree.classes type c known
    have members : layout first.members = layout state.members := by
      simpa [NodeState.record, layout, Var.plain, Function.comp_def] using layouts
    exact congrArg₂ Class.mk (Option.some.inj names) (plain_eq_of_layout members)

/-- Classes that are there stay. -/
theorem StateMade.keeps {after : Workspace} {id type : String} {state : NodeState} (made : StateMade w after id type state)
    {other : String} {c : Class} (isClass : w.draft.class? other = some c) : after.draft.class? other = some c := by
  by_cases same : other = type
  · subst same
    obtain ⟨c', stored, ⟨none, _⟩ | ⟨known, _⟩⟩ := made.own
    · cases none.symm.trans isClass
    · cases known.symm.trans isClass
      exact stored
  · exact (made.others other same).trans isClass

/-- The state generator of a node declares its members with the symbols that were known then. -/
def StateGenerated (input : BuildInput) (s : Symbols) (id : String) (m : NodeDraft) : Prop :=
  ∃ n i known, input.graph.get? id = some n ∧ input.registry.types.get? n.type = some i ∧ Symbols.Grows known s ∧
    i.state ⟨n, known, input.settings, m.signalIns⟩ = .ok m.members

/-- One more node that has got its state, or none. Of the other nodes nothing is changed. -/
structure StateStep (before after : Workspace) (id type : String) (m : NodeDraft) : Prop where
  grows : before.symbols.Grows after.symbols
  stored : after.draft.nodes.get? id = some m
  away : ∀ other, other ≠ id → after.draft.nodes.get? other = before.draft.nodes.get? other
  outcome : m.state = none ∧ (∀ other, after.draft.class? other = before.draft.class? other) ∨
    ∃ own, m.state = some own ∧ StateMade before after id type own

namespace StateStep
variable {after : Workspace} {done : List String} {id : String} {n : Node} {m : NodeDraft}

theorem keeps {type : String} (step : StateStep w after id type m) {other : String} {c : Class}
    (isClass : w.draft.class? other = some c) : after.draft.class? other = some c := by
  rcases step.outcome with ⟨_, same⟩ | ⟨_, _, made⟩
  · exact (same other).trans isClass
  · exact made.keeps isClass

theorem stateOf_iff {type : String} (step : StateStep w after id type m) {other otherType : String} {state : NodeState}
    (different : other ≠ id) :
    StateOf input after.draft other otherType state ↔ StateOf input w.draft other otherType state := by
  unfold StateOf
  rw [step.away other different]

/-- The state of the node is of the class of its type. -/
theorem hasState (step : StateStep w after id n.type m) (agree : StatesAgree input done w)
    (found : input.graph.get? id = some n) {type : String} {state : NodeState}
    (isState : StateOf input after.draft id type state) : HasState after id type state := by
  obtain ⟨n', m', found', rfl, stored', has⟩ := isState
  cases found.symm.trans found'
  cases step.stored.symm.trans stored'
  rcases step.outcome with ⟨none, _⟩ | ⟨own, isOwn, made⟩
  · cases none.symm.trans has
  · cases isOwn.symm.trans has
    obtain ⟨c, isClass, kept⟩ := made.own
    exact ⟨made.nonempty, made.symbol, made.named, agree.kept_eq step.grows made kept ▸ isClass⟩

/-- A class is one that was there, or that of the node. -/
theorem class_cases (step : StateStep w after id n.type m) (agree : StatesAgree input done w) {type : String} {c : Class}
    (isClass : after.draft.class? type = some c) :
    w.draft.class? type = some c ∨ type = n.type ∧ ∃ own, m.state = some own ∧ c = own.record := by
  rcases step.outcome with ⟨_, same⟩ | ⟨own, isOwn, made⟩
  · exact .inl ((same type).symm.trans isClass)
  · by_cases same : type = n.type
    · obtain ⟨c', stored, kept⟩ := made.own
      rw [same, stored] at isClass
      cases isClass
      exact .inr ⟨same, own, isOwn, agree.kept_eq step.grows made kept⟩
    · exact .inl ((made.others type same).symm.trans isClass)

theorem agree (step : StateStep w after id n.type m) (agree : StatesAgree input done w) (fresh : id ∉ done)
    (found : input.graph.get? id = some n) : StatesAgree input (done ++ [id]) after := by
  have differs : ∀ other ∈ done, other ≠ id := fun other member same => fresh (same ▸ member)
  refine ⟨fun other member type state isState => ?_, fun type c isClass => ?_⟩
  · rcases List.mem_append.mp member with earlier | isLast
    · have known := agree.states other earlier type state ((step.stateOf_iff (differs other earlier)).mp isState)
      exact ⟨known.nonempty, step.grows.kept known.symbol, step.grows.classOf? known.named, step.keeps known.declared⟩
    · rw [List.mem_singleton.mp isLast] at isState ⊢
      exact step.hasState agree found isState
  · rcases step.class_cases agree isClass with known | ⟨rfl, own, isOwn, same⟩
    · obtain ⟨other, earlier, state, isState, same⟩ := agree.classes type c known
      exact ⟨other, List.mem_append_left _ earlier, state, (step.stateOf_iff (differs other earlier)).mpr isState, same⟩
    · exact ⟨id, List.mem_append_right _ List.mem_cons_self, own, ⟨n, m, found, rfl, step.stored, isOwn⟩, same⟩

end StateStep

theorem finalizeNode_states {done : List String} {id : String} {n : Node} {m : NodeDraft} (fresh : id ∉ done)
    (found : input.graph.get? id = some n) (stored : w.draft.nodes.get? id = some m) (agree : StatesAgree input done w) :
    Ends (finalizeNode input id) w
      (fun _ after => w.symbols.Grows after.symbols ∧ StatesAgree input (done ++ [id]) after ∧
        NodesChanged [id] (fun id _ later => StateGenerated input after.symbols id later) w.draft after.draft)
      (fun _ => True) := by
  refine (finalizeNode_parts found stored).mono ?_ (fun _ bad => bad)
  rintro _ _ ⟨i, code, state, between, type, generated, made, rfl⟩
  obtain ⟨grows, nodes, members, outcome⟩ := (makeState_class w id n.type code.members).of_run made
  have changed := NodesChanged.modifyNode between.draft id (code.addTo state)
  have step : StateStep w { between with draft := between.draft.modifyNode id (code.addTo state) } id n.type
      (code.addTo state m) := by
    refine ⟨grows, ?_, fun other different => ?_, ?_⟩
    · obtain ⟨_, stored', rfl⟩ := changed.changed id List.mem_cons_self m (by rw [nodes, stored])
      exact stored'
    · rw [changed.same other (by simpa using different), nodes]
    · rcases outcome with ⟨stateless, same⟩ | ⟨own, isOwn, made⟩
      · exact .inl ⟨stateless, same⟩
      · exact .inr ⟨own, isOwn, made.nonempty, made.symbol, made.named, made.others, made.own⟩
  refine ⟨grows, step.agree agree fresh found, changed.keys.trans (by rw [nodes]),
    fun other outside => step.away other (by simpa using outside), fun other member before stored' => ?_⟩
  rw [List.mem_singleton.mp member]
  have declared := (generate_yields i _ m).of_eq_ok generated
  rw [← members] at declared
  exact ⟨_, step.stored, n, i, w.symbols, found, type, grows, declared⟩

/-- The stage of a draft is no part of its states. -/
theorem stateOf_atStage_iff {d : Draft} {stage : Stage} {id type : String} {state : NodeState} :
    StateOf input (d.atStage stage) id type state ↔ StateOf input d id type state := by
  unfold StateOf
  rw [get?_atStage]
  constructor
  · rintro ⟨n, _, found, same, staged, has⟩
    obtain ⟨m, stored, rfl⟩ := Option.map_eq_some_iff.mp staged
    exact ⟨n, m, found, same, stored, has⟩
  · rintro ⟨n, m, found, same, stored, has⟩
    exact ⟨n, _, found, same, Option.map_eq_some_iff.mpr ⟨m, stored, rfl⟩, has⟩

theorem StatesAgree.atStage {done : List String} (agree : StatesAgree input done w) (stage : Stage) :
    StatesAgree input done { w with draft := w.draft.atStage stage } := by
  refine ⟨fun id member type state isState => ?_, fun type c isClass => ?_⟩
  · obtain ⟨nonempty, symbol, named, declared⟩ := agree.states id member type state (stateOf_atStage_iff.mp isState)
    exact ⟨nonempty, symbol, named, declared⟩
  · obtain ⟨id, member, state, isState, same⟩ := agree.classes type c isClass
    exact ⟨id, member, state, stateOf_atStage_iff.mpr isState, same⟩

/-- After a draft without classes is finished, its states and its classes belong together. -/
theorem finish_states (staged : ∀ m ∈ w.draft.nodes.values, m.stage = .messagesSynthesized)
    (present : ∀ id ∈ w.draft.nodes.keys, ∃ n, input.graph.get? id = some n)
    (classless : ∀ type, w.draft.class? type = none) :
    Ends (finish input) w
      (fun _ after => StatesAgree input after.draft.nodes.keys after ∧
        ∀ id m, after.draft.nodes.get? id = some m → StateGenerated input after.symbols id m) (fun _ => True) := by
  have finalized : Ends (finalizeNodeCode input) w
      (fun _ after => StatesAgree input after.draft.nodes.keys after ∧
        ∀ id m, after.draft.nodes.get? id = some m → StateGenerated input after.symbols id m) (fun _ => True) := by
    refine Ends.pass staged (Ends.nodeIds_bind ?_)
    refine (Ends.eachNode w.draft.nodes.nodup_keys (fun s id _ later => StateGenerated input s id later) ?_
      (StatesAgree input) ⟨List.forall_mem_nil _, ?_⟩ ?_).mono ?_ (fun _ bad => bad)
    · rintro s t id _ m grows ⟨n, i, known, found, type, earlier, made⟩
      exact ⟨n, i, known, found, type, earlier.trans grows, made⟩
    · intro type c isClass
      cases (classless type).symm.trans isClass
    · intro done id rest now split agree _ same _
      have member : id ∈ w.draft.nodes.keys := by simp [split]
      have fresh : id ∉ done := by
        have nodup := w.draft.nodes.nodup_keys
        rw [split, List.nodup_append] at nodup
        exact fun earlier => nodup.2.2 id earlier id List.mem_cons_self rfl
      obtain ⟨n, found⟩ := present id member
      obtain ⟨m, stored⟩ := Table.mem_keys_iff.mp member
      exact finalizeNode_states fresh found (same.trans stored) agree
    · rintro _ after ⟨_, agree, changed⟩
      have keys : (after.draft.atStage .finalized).nodes.keys = w.draft.nodes.keys := by
        rw [atStage, Table.keys_map, changed.keys]
      refine ⟨keys ▸ agree.atStage .finalized, fun id m stored => ?_⟩
      rw [get?_atStage] at stored
      obtain ⟨m₁, stored₁, rfl⟩ := Option.map_eq_some_iff.mp stored
      obtain ⟨m₀, stored₀⟩ := Table.mem_keys_iff.mp (changed.keys ▸ Table.mem_keys_of_get? stored₁)
      obtain ⟨m', stored', made⟩ := changed.changed id (Table.mem_keys_of_get? stored₀) m₀ stored₀
      cases stored₁.symm.trans stored'
      exact made
  refine Ends.bind finalized (fun _ after made => Ends.draft_bind (Ends.symbols_bind ?_))
  show Ends (if _ then _ else _) after _ _
  split
  · exact Ends.pure made
  · exact trivial

end Draft
end DspPatch
