import DspPatch.Draft.Build

/-!
Fusion. The loop expression of an inline node is put into the inlet expressions of its sink if that is the only use of
its output: the node has one signal outlet with one connection, which leads to a later node of the same group, and its
output is not used outside the group. Otherwise the expression is assigned to the variable of the outlet.
-/
namespace DspPatch.Draft

/-- The group of a node, the hot one being the first, and its place there. -/
structure Placement where
  group : Nat
  position : Nat
deriving DecidableEq, Repr

/-- The last place at which a node stands in the groups. -/
def placement? (p : Partition) (id : String) : Option Placement :=
  let places := p.groups.zipIdx.flatMap (fun (group, i) =>
    group.traversal.zipIdx.filterMap (fun (member, position) =>
      if member = id then some ⟨i, position⟩ else none))
  places.getLast?

/-- The sink that the expression of a node may be put into, given the outlets that have variables. -/
def fusionTarget? (g : Graph) (p : Partition) (id : String) (outlets : List String) : Option String :=
  match outlets, g.get? id with
  | [outlet], some n =>
    match n.sinksOf outlet with
    | [sink] =>
      match placement? p id, placement? p sink.node with
      | some own, some target =>
        let outNodes := ((p.groups.drop own.group).head?.map Group.outNodes).getD []
        if own.group = target.group ∧ own.position < target.position ∧ id ∉ outNodes then some sink.node else none
      | _, _ => none
    | _ => none
  | _, _ => none

/-- Put an expression into the place of a variable in the inlet expressions of a sink, and take the node out. -/
def inlineInto (d : Draft) (id sink symbol expression : String) : Draft :=
  let written := d.modifyNode sink (fun n =>
    { n with signalIns := n.signalIns.map (fun text => Text.replaceName text symbol ("(" ++ expression ++ ")")) })
  written.modifyNode id (fun n => { n with inlined := true, signalOuts := ∅, loop := none, loopResolved := true })

/-- Store the loop code of a node. -/
def resolveLoop (d : Draft) (id : String) (loop : Option Sequence) : Draft :=
  d.modifyNode id (fun n => { n with loop, loopResolved := true })

/-- Make the loop code of an inline node, and fuse it or assign it. The placement of nodes is that of `p`. -/
def fuseNode (input : BuildInput) (symbols : Symbols) (p : Partition) (d : Draft) (id : String) :
    Except CompileError Draft := do
  let i ← input.registry.implementation (← input.graph.node id)
  if !i.flags.isInline then return d
  let loop ← i.loop (← input.context symbols d id)
  match loop.bind Sequence.expression? with
  | none => return d.resolveLoop id loop
  | some expression =>
    let outs := (← d.node id).signalOuts
    match fusionTarget? input.graph p id outs.keys, outs.values with
    | some sink, symbol :: _ => return d.inlineInto id sink symbol expression
    | _, [symbol] => return d.resolveLoop id (some (.ofCode (symbol ++ " = " ++ expression)))
    | _, _ => return d.resolveLoop id (some (.ofCode expression))

/-- Take inlined nodes out of the groups. -/
def dropInlined (d : Draft) : Draft :=
  let inlined := (d.nodes.entries.filter (fun entry => entry.2.inlined)).map Prod.fst
  let trim := fun (g : Group) => { g with traversal := g.traversal.filter (fun id => !inlined.contains id) }
  { d with partition := { d.partition with
    hot := trim d.partition.hot
    cold := d.partition.cold.map (fun c => { c with group := trim c.group }) } }

end DspPatch.Draft
