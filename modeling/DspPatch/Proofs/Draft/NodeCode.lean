import DspPatch.Draft.NodeCode
import DspPatch.Proofs.Draft.Dependencies

/-!
What making the remaining code of the nodes achieves. Every node keeps its portlets and messages. Apart from names,
implementations and generators only two nodes of one type that declare different state members can make it fail.
-/
namespace DspPatch.Draft
open Build
variable {input : BuildInput} {w : Workspace}

/-- What all nodes of a type have to agree on. -/
def layout (members : List StateMember) : List (String × String) := members.map (fun m => (m.type, m.name))

/-- The state generator of a node of the type declares the members. -/
def Declares (input : BuildInput) (id type : String) (members : List StateMember) : Prop :=
  ∃ n i c, input.graph.get? id = some n ∧ n.type = type ∧ input.registry.types.get? type = some i ∧ c.node = n ∧
    c.settings = input.settings ∧ i.state c = .ok members

/-- The node and another one of its type declare different members. -/
def LayoutsDiffer (input : BuildInput) (id type : String) : Prop :=
  ∃ other mine theirs, other ≠ id ∧ Declares input id type mine ∧ Declares input other type theirs ∧
    layout mine ≠ layout theirs

/-- What can go wrong while the code of nodes is finished. -/
def FinishFault (input : BuildInput) (e : CompileError) : Prop :=
  CodeFault input.graph input.registry e ∨ ∃ id type, e = .verification (.stateLayout id type) ∧ LayoutsDiffer input id type

/-- Every class holds the members that one of the nodes `done` declares. -/
def ClassesDeclared (input : BuildInput) (done : List String) (d : Draft) : Prop :=
  ∀ type t known, d.types.get? type = some t → t.stateClass = some known → ∃ id ∈ done, ∃ members,
    Declares input id type members ∧ known.members.map (fun v => (v.type, v.name)) = layout members

theorem ClassesDeclared.mono {done more : List String} {d : Draft} (classes : ClassesDeclared input done d)
    (subset : done ⊆ more) : ClassesDeclared input more d := by
  intro type t known found isClass
  obtain ⟨id, member, members, declares⟩ := classes type t known found isClass
  exact ⟨id, subset member, members, declares⟩

/-- What the code of nodes is made from. -/
structure Finishable (input : BuildInput) (done : List String) (w : Workspace) : Prop where
  covers : Covers w.symbols input.graph
  served : Served input w
  voiced : Voiced input w
  classes : ClassesDeclared input done w.draft

theorem generate_yields (i : Implementation) (context : NodeContext) (m : NodeDraft) :
    Yields (generate i context m) (fun code => i.state context = .ok code.members) (i.Fails context) := by
  unfold generate
  refine Yields.bind ((Yields.self _).mono (fun _ post => post) (fun _ failed => .inl failed)) (fun members declared => ?_)
  refine Yields.bind ((Yields.self _).mono (fun _ _ => trivial) (fun _ failed => .inr (.inl failed)))
    (fun initialization _ => ?_)
  split
  next => exact declared
  next =>
  have finish : ∀ loop, Yields (do return (⟨members, initialization, loop, ← i.inletDsp context⟩ : GeneratedCode))
      (fun code => i.state context = .ok code.members) (i.Fails context) := by
    intro loop
    exact Yields.bind ((Yields.self _).mono (fun _ _ => trivial) (fun _ failed => .inr (.inr (.inr (.inl failed)))))
      (fun _ _ => declared)
  dsimp only
  split
  next => exact finish none
  next =>
    have looped : Yields ((i.loop context).map some) (fun _ => True) (i.Fails context) :=
      Yields.map ((Yields.self _).mono (fun _ post => post) (fun _ failed => .inr (.inr (.inl failed))))
        (fun _ _ => trivial)
    exact Yields.bind looped (fun loop _ => finish loop)

/-- Declaring the state of a node changes nothing but the class of its type. -/
theorem declareState_yields (input : BuildInput) {done : List String} {d : Draft} {id type className : String}
    {members : List StateMember} (fresh : id ∉ done) :
    Yields (declareState d id type className members)
      (fun after => (∃ types, after = { d with types := types }) ∧
        (ClassesDeclared input done d → Declares input id type members → ClassesDeclared input (done ++ [id]) after))
      (fun e => ClassesDeclared input done d → Declares input id type members →
        e = .verification (.stateLayout id type) ∧ LayoutsDiffer input id type) := by
  have declared : (members.map (fun m => Var.plain m.type m.name)).map (fun v => (v.type, v.name)) = layout members := by
    rw [List.map_map]
    rfl
  unfold declareState
  dsimp only
  split
  next =>
    refine ⟨⟨_, rfl⟩, fun classes declares other t known found isClass => ?_⟩
    rw [Table.get?_insert] at found
    split at found
    next same =>
      cases found
      cases isClass
      exact ⟨id, List.mem_append_right _ List.mem_cons_self, members, same ▸ declares, declared⟩
    next => exact classes.mono (List.subset_append_left _ _) other t known found isClass
  next known isClass =>
    split
    next => exact ⟨⟨d.types, rfl⟩, fun classes _ => classes.mono (List.subset_append_left _ _)⟩
    next different =>
      intro classes declares
      refine ⟨rfl, ?_⟩
      cases found : d.types.get? type with
      | none =>
        rw [found] at isClass
        cases isClass
      | some t =>
        rw [found] at isClass
        obtain ⟨other, earlier, theirs, othersDeclare, same⟩ := classes type t known found isClass
        exact ⟨other, members, theirs, fun equal => fresh (equal ▸ earlier), declares, othersDeclare,
          fun equal => different (by rw [same, declared, equal])⟩

/-- What finishing nodes leaves as it was. -/
structure KeepsRest (before after : Workspace) : Prop where
  grows : before.symbols.Grows after.symbols
  rest : ∃ nodes types, after.draft = { before.draft with nodes := nodes, types := types }

theorem KeepsRest.trans {a b c : Workspace} (first : KeepsRest a b) (second : KeepsRest b c) : KeepsRest a c := by
  obtain ⟨nodes, types, same⟩ := first.rest
  obtain ⟨nodes', types', same'⟩ := second.rest
  exact ⟨first.grows.trans second.grows, nodes', types', by rw [same', same]⟩

/-- The state of a node whose type has a tag. -/
theorem makeState_ends (input : BuildInput) {done : List String} {id type : String} {members : List StateMember}
    (fresh : id ∉ done) :
    Ends (makeState id type members) w
      (fun _ after => w.symbols.Grows after.symbols ∧ (∃ types, after.draft = { w.draft with types := types }) ∧
        (ClassesDeclared input done w.draft → Declares input id type members →
          ClassesDeclared input (done ++ [id]) after.draft))
      (fun e => w.symbols.at? (.state id) ≠ none → w.symbols.at? (.typeTag type) ≠ none →
        ClassesDeclared input done w.draft → Declares input id type members → FinishFault input e) := by
  unfold makeState
  split
  next => exact Ends.pure ⟨.refl _, ⟨w.draft.types, rfl⟩, fun classes _ => classes.mono (List.subset_append_left _ _)⟩
  next =>
  refine Ends.symbols_bind (Ends.lift_bind ?_)
  cases tagged : w.symbols.at? (.typeTag type) with
  | none =>
    cases read : w.symbols.typeTag type with
    | ok tag => cases tagged.symm.trans (Symbols.typeTag_eq_ok_iff.mp read)
    | error e => exact fun _ present => absurd rfl present
  | some tag =>
    rw [Symbols.typeTag_eq_ok_iff.mpr tagged]
    refine Ends.name_bind ((w.symbols.attachGlobal_yields tag "State").mono ?_ (fun _ bad _ _ _ _ => .inl (.inl bad)))
    rintro ⟨className, s⟩ assigns
    refine Ends.draft_bind (Ends.lift_bind ((declareState_yields input fresh).mono ?_ ?_))
    · rintro d ⟨⟨types, rfl⟩, declared⟩
      refine Ends.modifyDraft_bind (Ends.symbols_bind (Ends.lift_bind ?_))
      cases read : s.node id with
      | ok ns => exact ⟨assigns.grows, ⟨types, rfl⟩, declared⟩
      | error e =>
        intro present
        obtain ⟨ns, _, succeeds⟩ := node_symbols_eq_ok (assigns.grows.present present)
        cases read.symm.trans succeeds
    · exact fun e bad _ _ classes declares => .inr ⟨id, type, bad classes declares⟩

/-- A node with the code that its generators make, and with its state. -/
def GeneratedCode.addTo (code : GeneratedCode) (state : Option NodeState) (n : NodeDraft) : NodeDraft := { n with
  state
  initialization := code.initialization
  loop := code.loop.getD n.loop
  loopResolved := code.loop.isSome || n.loopResolved
  inletDsp := if n.inlined then n.inletDsp else code.inletDsp }

/-- Finishing a node is running its generators, making its state and adding both to it. -/
theorem finalizeNode_parts {id : String} {n : Node} {m : NodeDraft} (found : input.graph.get? id = some n)
    (stored : w.draft.nodes.get? id = some m) :
    Ends (finalizeNode input id) w
      (fun _ after => ∃ i code state between, input.registry.types.get? n.type = some i ∧
        generate i ⟨n, w.symbols, input.settings, m.signalIns⟩ m = .ok code ∧
        (makeState id n.type code.members).run.run w = (.ok state, between) ∧
        after = { between with draft := between.draft.modifyNode id (code.addTo state) }) (fun _ => True) := by
  refine Ends.lift_bind ?_
  rw [Graph.node_eq_ok_iff.mpr found]
  refine Ends.lift_bind ((Yields.self _).mono (fun i type => ?_) (fun _ _ => trivial))
  refine Ends.draft_bind (Ends.symbols_bind (Ends.lift_bind ?_))
  rw [context_eq_ok w.symbols found stored]
  refine Ends.lift_bind ?_
  rw [node_eq_ok_iff.mpr stored]
  refine Ends.lift_bind ((Yields.self _).mono (fun code generated => ?_) (fun _ _ => trivial))
  refine Ends.bind (Ends.self _ w) (fun state between made => Ends.modifyNode ?_)
  exact ⟨i, code, state, between, Registry.implementation_eq_ok_iff.mp type, generated, made, rfl⟩

/-- A node after its code is finished. -/
def CodeMade (before after : NodeDraft) : Prop :=
  ∃ state initialization loop resolved inletDsp stage, after = { before with
    state := state, initialization := initialization, loop := loop, loopResolved := resolved, inletDsp := inletDsp,
    stage := stage }

theorem finalizeNode_ends {done : List String} {id : String} {n : Node} {m : NodeDraft} (fresh : id ∉ done)
    (found : input.graph.get? id = some n) (stored : w.draft.nodes.get? id = some m) :
    Ends (finalizeNode input id) w
      (fun _ after => (KeepsRest w after ∧ (Finishable input done w → Finishable input (done ++ [id]) after)) ∧
        NodesChanged [id] (fun _ => CodeMade) w.draft after.draft)
      (fun e => Finishable input done w → FinishFault input e) := by
  refine Ends.lift_bind ?_
  rw [Graph.node_eq_ok_iff.mpr found]
  refine Ends.lift_bind ?_
  cases type : input.registry.types.get? n.type with
  | none =>
    rw [Registry.implementation, type]
    exact fun _ => .inl (.inr (.inl ⟨_, _, _, rfl⟩))
  | some i =>
    rw [Registry.implementation_eq_ok_iff.mpr type]
    refine Ends.draft_bind (Ends.symbols_bind (Ends.lift_bind ?_))
    rw [context_eq_ok w.symbols found stored]
    refine Ends.lift_bind ?_
    rw [node_eq_ok_iff.mpr stored]
    refine Ends.lift_bind ((generate_yields i _ m).mono (fun code declared => ?_) (fun e failed finishable => ?_))
    swap
    · obtain ⟨rfl, _, serves⟩ := finishable.served id m n stored found
      cases type.symm.trans serves.type.registered
      have sends := finishable.voiced n.id (Table.mem_keys_of_get? stored) n found
      exact .inl (.inr (.inr (.inl ⟨n.type, i, type, .node serves sends failed⟩)))
    have declares : Declares input id n.type code.members := ⟨n, i, _, found, rfl, type, rfl, rfl, declared⟩
    refine Ends.bind ((makeState_ends input fresh).mono (fun _ _ post => post) (fun e bad finishable => ?_)) ?_
    · obtain ⟨_, _, serves⟩ := finishable.served id m n stored found
      obtain ⟨tag, tagged, _⟩ := serves.type.locals
      exact bad (finishable.covers id n found) (Option.ne_none_iff_exists'.mpr ⟨tag, tagged⟩) finishable.classes declares
    rintro state between ⟨grows, ⟨types, same⟩, classes⟩
    have nodes : between.draft.nodes = w.draft.nodes := by rw [same]
    have changed : NodesChanged [id] (fun _ => CodeMade) w.draft (between.draft.modifyNode id (code.addTo state)) := by
      have modified := NodesChanged.modifyNode between.draft id (code.addTo state)
      refine ⟨modified.keys.trans (by rw [nodes]), fun other outside => ?_, fun other member before stored' => ?_⟩
      · exact (modified.same other outside).trans (by rw [nodes])
      · obtain ⟨after, stored'', rfl⟩ := modified.changed other member before (by rw [nodes, stored'])
        exact ⟨_, stored'', _, _, _, _, _, _, rfl⟩
    have inlets := changed.keepsInlets (by rintro _ _ _ _ ⟨_, _, _, _, _, _, rfl⟩; rfl)
    refine Ends.modifyNode ⟨⟨⟨grows, _, types, by rw [same]; rfl⟩, fun finishable => ?_⟩, changed⟩
    exact ⟨finishable.covers.mono grows, finishable.served.mono grows inlets, finishable.voiced.mono grows inlets.keys,
      classes finishable.classes declares⟩

end DspPatch.Draft
